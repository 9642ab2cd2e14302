import Mathlib.Data.Finset.Dedup
import RpaCore.Cursor.Basic
import RpaCore.Persistence.Windows

set_option relaxedAutoImplicit false
set_option autoImplicit false

/-!
# Cursors and their queries

A cursor holds a position and the fingerprint of the filters it was issued with. Reading it with the
same filters gives the position back; another query reads it exactly if it is of the same kind and
its filters have the same normal form, whatever its limit.

SHA-256 is taken to be injective, and the JSON text of a value that occurs to be read as that value.

## Main definitions

* `CursorCodec.Reads` — a JSON text is read as the value it was written from.
* `NormalQuery`, `CursorQuery.normal` — the normal form of a query.
* `CursorCodec.Issues` — a query issues a cursor at a position.

## Main results

* `CursorCodec.readText_cursorText` — the text of a cursor is read as its payload.
* `TransactionQuery.filters_eq_iff`, `itemFilters_eq_iff` — filters and normal forms.
* `cursors_bound` — the round trip, and which queries accept a cursor.
-/

/-! ## Texts -/

namespace CursorCodec

variable {codec : CursorCodec}

/-- The JSON text of a value is read as that value. -/
def Reads (codec : CursorCodec) (v : PyVal) : Prop := codec.loads (utf8 (codec.dumps v)) = some v

/-- **The text of a cursor is read as its payload.** -/
lemma readText_cursorText {payload : PyVal} (h : codec.Reads payload) (validate : Bool) :
    codec.cursorText payload ≠ "" ∧
      codec.readText validate (codec.cursorText payload) = some payload := by
  obtain ⟨hrepad, hascii⟩ := Base64.repad_strip_encode (utf8 (codec.dumps payload))
  constructor
  · intro hempty
    have hnil : Base64.strip (Base64.encode (utf8 (codec.dumps payload))) = [] := by
      rw [← String.toList_ofList (l := Base64.strip _), ← cursorText, hempty]
      rfl
    rw [Reads, Base64.strip_encode_eq_nil.mp hnil, codec.loads_nil] at h
    cases h
  · rw [readText, cursorText, String.toList_ofList, hrepad, Base64.a2b_encode, Option.bind_some,
      if_pos (by simpa using hascii)]
    exact h

/-- Values with one fingerprint are equal. -/
lemma fingerprint_inj (hsha : Function.Injective codec.sha256) {v w : PyVal} (hv : codec.Reads v)
    (hw : codec.Reads w) : codec.fingerprint v = codec.fingerprint w ↔ v = w := by
  refine ⟨fun h => ?_, congrArg _⟩
  have htext : utf8 (codec.dumps v) = utf8 (codec.dumps w) := hsha h
  rw [Reads, htext] at hv
  exact Option.some.inj (hv.symm.trans hw)

/-- A cursor of transactions is read with its filters, and with no others. -/
lemma decodeQueryCursor_cursorText {createdAtUtc id filters filters' : String}
    (h : codec.Reads (queryCursorPayload createdAtUtc id filters)) :
    codec.decodeQueryCursor (codec.cursorText (queryCursorPayload createdAtUtc id filters))
        filters' =
      if filters = filters' then .ok (createdAtUtc, id)
      else .error (.valueError "cursor does not match the transaction query filters") := by
  obtain ⟨hne, hread⟩ := readText_cursorText h false
  rw [decodeQueryCursor, if_neg hne, hread]
  simp [queryCursorPayload, PyVal.record, PyVal.get, PyVal.isStr, PyVal.eqInt]

/-- A cursor of queue records is not read by a query for transactions. -/
lemma decodeQueryCursor_queue {kind filters filters' : String} {position : PyVal}
    (h : codec.Reads (cursorPayload kind filters position)) (hne : filters ≠ filters') :
    codec.decodeQueryCursor (codec.cursorText (cursorPayload kind filters position)) filters' =
      .error (.valueError "cursor does not match the transaction query filters") := by
  obtain ⟨hempty, hread⟩ := readText_cursorText h false
  rw [decodeQueryCursor, if_neg hempty, hread]
  simp [cursorPayload, PyVal.record, PyVal.get, PyVal.isStr, PyVal.eqInt, queueCursorVersion,
    queryPageFormatVersion, hne]

/-- A cursor of queue records is read with its kind and filters, and with no others. -/
lemma decodedCursor_cursorText {kind kind' filters filters' : String}
    {position : List (PyVal × PyVal)}
    (h : codec.Reads (cursorPayload kind filters (.dict position))) :
    codec.decodedCursor (codec.cursorText (cursorPayload kind filters (.dict position))) kind'
        filters' =
      if kind = kind' ∧ filters = filters' then .ok position
      else .error (.valueError "cursor does not match the queue query kind or filters") := by
  obtain ⟨hne, hread⟩ := readText_cursorText h true
  rw [decodedCursor, if_neg hne, hread]
  by_cases hkind : kind = kind' <;> by_cases hfilters : filters = filters' <;>
    simp [cursorPayload, PyVal.record, PyVal.get, PyVal.isStr, hkind, hfilters]

/-- A cursor of transactions is not read by a query for queue records. -/
lemma decodedCursor_transactions {createdAtUtc id filters kind filters' : String}
    (h : codec.Reads (queryCursorPayload createdAtUtc id filters)) :
    codec.decodedCursor (codec.cursorText (queryCursorPayload createdAtUtc id filters)) kind
        filters' =
      .error (.valueError "cursor does not match the queue query kind or filters") := by
  obtain ⟨hne, hread⟩ := readText_cursorText h true
  rw [decodedCursor, if_neg hne, hread]
  simp [queryCursorPayload, PyVal.record, PyVal.get, PyVal.isStr, queueCursorVersion,
    queryPageFormatVersion]

end CursorCodec

/-! ## Normal forms -/

/-- The **normal form** of a query: its kind and what its filters mean. -/
inductive NormalQuery
  | transactions (statuses : Option (Finset Status)) (since untilTime : Option ℤ)
    (reference : Option String) (metadata : PyVal)
  | items (statuses : Option (Finset QueueStatus))
  | attempts (itemId : Option String)
  | poisonEvents (itemId : Option String)
  deriving DecidableEq

/-- The normal form of a query: the set of the statuses, the instants of the window, the reference
and the canonical metadata, or the set of the statuses or the id of the item. -/
def CursorQuery.normal : CursorQuery → NormalQuery
  | transactions query => .transactions (query.statuses.map List.toFinset)
    (query.since.map Datetime.instant) (query.untilTime.map Datetime.instant) query.reference
    (query.metadataFilter.getD (.dict [])).canonical
  | items statuses => .items (statuses.map List.toFinset)
  | attempts itemId => .attempts itemId
  | poisonEvents itemId => .poisonEvents itemId

/-- Statuses have different texts. -/
lemma Status.text_injective : Function.Injective Status.text := by
  intro a b h
  revert h
  cases a <;> cases b <;> decide

/-- Queue statuses have different texts. -/
lemma QueueStatus.text_injective : Function.Injective QueueStatus.text := by
  intro a b h
  revert h
  cases a <;> cases b <;> decide

/-- The sorted texts of statuses are those of a set. -/
lemma sortedTexts_eq_iff {α : Type} [DecidableEq α] {text : α → String}
    (htext : Function.Injective text) {xs ys : List α} :
    ((xs.map text).dedup.insertionSort fun a b => a ≤ b) =
        ((ys.map text).dedup.insertionSort fun a b => a ≤ b) ↔ xs.toFinset = ys.toFinset := by
  have hmem : ∀ (zs : List α) (z : α),
      text z ∈ (zs.map text).dedup.insertionSort (fun a b => a ≤ b) ↔ z ∈ zs.toFinset := by
    intro zs z
    rw [List.mem_insertionSort, List.mem_dedup, List.mem_map_of_injective htext, List.mem_toFinset]
  constructor
  · intro h
    ext z
    rw [← hmem, ← hmem, h]
  · intro h
    refine List.Perm.eq_of_pairwise (fun (a b : String) _ _ => le_antisymm)
      (List.pairwise_insertionSort (fun a b : String => a ≤ b) _)
      (List.pairwise_insertionSort (fun a b : String => a ≤ b) _) ?_
    refine (List.perm_insertionSort _ _).trans (.trans ?_ (List.perm_insertionSort _ _).symm)
    have hsame : ∀ z, z ∈ xs ↔ z ∈ ys := fun z => by
      rw [← List.mem_toFinset, h, List.mem_toFinset]
    refine (List.perm_ext_iff_of_nodup (List.nodup_dedup _) (List.nodup_dedup _)).mpr fun _ => ?_
    simp only [List.mem_dedup, List.mem_map, hsame]

/-- The filters of item queries are equal if their sets of statuses are. -/
lemma itemFilters_eq_iff {statuses statuses' : Option (List QueueStatus)} :
    itemFilters statuses = itemFilters statuses' ↔
      statuses.map List.toFinset = statuses'.map List.toFinset := by
  rw [itemFilters, itemFilters, QueueFilters.items.injEq]
  cases statuses <;> cases statuses' <;>
    simp [sortedTexts_eq_iff QueueStatus.text_injective]

/-- A timestamp of a query is given by the text of its instant. -/
lemma queryTimestamp_ok {bound : Option Datetime} {field : String} {text : Option String}
    (h : queryTimestamp bound field = .ok text) :
    (∀ d ∈ bound, d.IsBound) ∧ text = bound.map Datetime.boundText := by
  cases bound with
  | none =>
    cases h
    exact ⟨by simp, rfl⟩
  | some d =>
    have haware : d.isAware = true := by
      by_contra hnaive
      simp [queryTimestamp, hnaive] at h
    obtain ⟨hutc, rfl⟩ := (TransactionDb.queryTimestamp_eq_ok (by simpa using haware)).mp h
    refine ⟨?_, rfl⟩
    rintro d' ⟨⟩
    exact ⟨haware, hutc d rfl⟩

/-- The texts of bounds are equal if the instants are. -/
lemma map_boundText_eq_iff {a b : Option Datetime} (ha : ∀ d ∈ a, d.IsBound)
    (hb : ∀ d ∈ b, d.IsBound) :
    a.map Datetime.boundText = b.map Datetime.boundText ↔
      a.map Datetime.instant = b.map Datetime.instant := by
  cases a with
  | none => cases b <;> simp
  | some s =>
    cases b with
    | none => simp
    | some u =>
      obtain ⟨hs, hs'⟩ := (ha s rfl).range
      obtain ⟨hu, hu'⟩ := (hb u rfl).range
      simp only [Option.map_some, Option.some.injEq, Datetime.boundText]
      rw [le_antisymm_iff, Datetime.isoformat_ofInstant_le hs hs' hu hu',
        Datetime.isoformat_ofInstant_le hu hu' hs hs', ← le_antisymm_iff]

/-- The statuses of a query are the sorted texts, none for every status. -/
lemma queryStatuses_eq_iff {statuses statuses' : Option (List Status)} {texts texts' : List String}
    (h : queryStatuses statuses = .ok texts) (h' : queryStatuses statuses' = .ok texts') :
    texts = texts' ↔ statuses.map List.toFinset = statuses'.map List.toFinset := by
  -- the texts of a list that is not empty are not empty
  have hcons : ∀ (x : Status) (xs : List Status),
      (((x :: xs).map Status.text).dedup.insertionSort fun a b => a ≤ b) ≠ [] := by
    intro x xs hnil
    have hmem : x.text ∈ ((x :: xs).map Status.text).dedup.insertionSort fun a b => a ≤ b := by
      simp
    rw [hnil] at hmem
    cases hmem
  rcases statuses with - | - | ⟨x, xs⟩ <;> rcases statuses' with - | - | ⟨y, ys⟩ <;>
    simp only [queryStatuses, Except.ok.injEq, reduceCtorEq] at h h' <;> subst h <;> subst h'
  · simp
  · simpa using (hcons y ys).symm
  · simpa using hcons x xs
  · rw [sortedTexts_eq_iff Status.text_injective, Option.map_some, Option.map_some,
      Option.some.injEq]

/-- The metadata filter is given by the entries of its canonical form. -/
lemma metadataFilter_ok {filter : Option PyVal} {entries : List (String × PyVal)}
    (h : metadataFilterToStorage filter = .ok entries) :
    (filter.getD (.dict [])).canonical = .record entries := by
  cases filter with
  | none =>
    cases h
    rfl
  | some metadata =>
    simp only [metadataFilterToStorage] at h
    split at h
    · cases h
    · next hsafe =>
      cases h
      rw [Option.getD_some,
        ← @TransactionDb.map_metadataRows "" _ ((PyVal.objectError_eq_none_iff _ _).mp hsafe),
        MetadataRow.ofMetadata, PyVal.record, ← List.map_insertionSort
          (fun a b : String × PyVal => a.1 ≤ b.1) (fun a b : MetadataRow => a.key ≤ b.key) _ _
          fun _ _ _ _ => Iff.rfl, List.map_map]
      rfl

/-- Records with the same entries are equal. -/
lemma PyVal.record_inj {entries entries' : List (String × PyVal)} :
    PyVal.record entries = .record entries' ↔ entries = entries' := by
  rw [PyVal.record, PyVal.record, PyVal.dict.injEq]
  refine (List.map_injective_iff.mpr ?_).eq_iff
  rintro ⟨k, v⟩ ⟨k', v'⟩ h
  simpa using h

/-- **Filters of queries for transactions are equal if the normal forms are.** -/
theorem TransactionQuery.filters_eq_iff {query query' : TransactionQuery}
    {filters filters' : QueryFilters} (h : query.filters = .ok filters)
    (h' : query'.filters = .ok filters') :
    filters = filters' ↔
      (CursorQuery.transactions query).normal = (CursorQuery.transactions query').normal := by
  have hparts : ∀ {query : TransactionQuery} {filters : QueryFilters},
      query.filters = .ok filters → queryStatuses query.statuses = .ok filters.statuses ∧
        ((∀ d ∈ query.since, d.IsBound) ∧ filters.since = query.since.map Datetime.boundText) ∧
        ((∀ d ∈ query.untilTime, d.IsBound) ∧
          filters.untilTime = query.untilTime.map Datetime.boundText) ∧
        filters.reference = query.reference ∧
        (query.metadataFilter.getD (.dict [])).canonical = .record filters.metadata := by
    intro query filters h
    obtain ⟨statuses, hstatuses, h⟩ := Except.bind_eq_ok.mp h
    obtain ⟨since, hsince, h⟩ := Except.bind_eq_ok.mp h
    obtain ⟨untilTime, huntil, h⟩ := Except.bind_eq_ok.mp h
    split at h
    · cases h
    · obtain ⟨metadata, hmetadata, h⟩ := Except.bind_eq_ok.mp h
      cases h
      exact ⟨hstatuses, queryTimestamp_ok hsince, queryTimestamp_ok huntil, rfl,
        metadataFilter_ok hmetadata⟩
  obtain ⟨hstatuses, ⟨hsince, hsinceText⟩, ⟨huntil, huntilText⟩, href, hmetadata⟩ := hparts h
  obtain ⟨hstatuses', ⟨hsince', hsinceText'⟩, ⟨huntil', huntilText'⟩, href', hmetadata'⟩ :=
    hparts h'
  rw [CursorQuery.normal, CursorQuery.normal, NormalQuery.transactions.injEq,
    ← queryStatuses_eq_iff hstatuses hstatuses', ← map_boundText_eq_iff hsince hsince',
    ← map_boundText_eq_iff huntil huntil', hmetadata, hmetadata', PyVal.record_inj, ← href, ← href',
    ← hsinceText, ← hsinceText', ← huntilText, ← huntilText']
  constructor
  · rintro rfl
    simp
  · rintro ⟨hs, hsince, huntil, href, hmetadata⟩
    cases filters
    cases filters'
    simp_all

/-! ## Fingerprints -/

/-- Strings and `None` are values of their own. -/
lemma PyVal.optional_inj {a b : Option String} :
    PyVal.optional a = .optional b ↔ a = b := by
  cases a <;> cases b <;> simp [PyVal.optional]

/-- Lists of strings are values of their own. -/
lemma PyVal.list_str_inj {xs ys : List String} :
    PyVal.list (xs.map .str) = .list (ys.map .str) ↔ xs = ys := by
  rw [PyVal.list.injEq]
  exact (List.map_injective_iff.mpr fun a b h => PyVal.str.inj h).eq_iff

/-- Queue filters have different payloads. -/
lemma QueueFilters.payload_inj {filters filters' : QueueFilters} :
    filters.payload = filters'.payload ↔ filters = filters' := by
  refine ⟨fun h => ?_, congrArg _⟩
  cases filters <;> cases filters' <;>
    simp [QueueFilters.payload, PyVal.record, QueueFilters.kind, PyVal.optional_inj] at h ⊢
  · next a b =>
    cases a <;> cases b <;> simp at h ⊢
    exact (List.map_injective_iff.mpr fun _ _ h => PyVal.str.inj h) h
  · exact h
  · exact h

/-- The texts of values that can be read determine the values. -/
lemma CursorCodec.map_dumps_inj {codec : CursorCodec} {entries entries' : List (String × PyVal)}
    (h : ∀ entry ∈ entries, codec.Reads entry.2) (h' : ∀ entry ∈ entries', codec.Reads entry.2)
    (heq : (entries.map fun (k, v) => (k, PyVal.str (codec.dumps v))) =
      entries'.map fun (k, v) => (k, PyVal.str (codec.dumps v))) : entries = entries' := by
  induction entries generalizing entries' with
  | nil => exact (List.map_eq_nil_iff.mp heq.symm).symm
  | cons entry entries ih =>
    cases entries' with
    | nil => cases heq
    | cons entry' entries' =>
      rw [List.forall_mem_cons] at h h'
      rw [List.map_cons, List.map_cons, List.cons.injEq, Prod.mk.injEq, PyVal.str.injEq] at heq
      obtain ⟨⟨hkey, htext⟩, hrest⟩ := heq
      have hread := h.1
      rw [Reads, htext] at hread
      rw [ih h.2 h'.2 hrest, Prod.ext hkey (Option.some.inj (hread.symm.trans h'.1))]

/-- Filters of queries for transactions have different payloads, if the metadata values can be
read. -/
lemma QueryFilters.payload_inj {codec : CursorCodec} {filters filters' : QueryFilters}
    (h : ∀ entry ∈ filters.metadata, codec.Reads entry.2)
    (h' : ∀ entry ∈ filters'.metadata, codec.Reads entry.2) :
    filters.payload codec = filters'.payload codec ↔ filters = filters' := by
  refine ⟨fun heq => ?_, congrArg _⟩
  simp only [QueryFilters.payload, PyVal.record_inj, List.cons.injEq, Prod.mk.injEq, true_and,
    and_true, PyVal.optional_inj, PyVal.list_str_inj] at heq
  obtain ⟨hmetadata, href, hsince, hstatuses, huntil⟩ := heq
  have hentries := CursorCodec.map_dumps_inj h h' hmetadata
  cases filters
  cases filters'
  simp_all

/-- The payloads of both kinds of filters differ. -/
lemma QueryFilters.payload_ne {codec : CursorCodec} {filters : QueryFilters}
    {filters' : QueueFilters} : filters.payload codec ≠ filters'.payload := by
  cases filters' <;> simp [QueryFilters.payload, QueueFilters.payload, PyVal.record]

/-! ## Cursors of queries -/

namespace CursorCodec

variable (codec : CursorCodec)

/-- The payload of a cursor of queue records with these filters. -/
def queuePayload (filters : QueueFilters) (position : QueuePosition) : PyVal :=
  cursorPayload filters.kind (codec.fingerprint filters.payload) position.payload

/-- The cursor of queue records with these filters. -/
def queueCursor (filters : QueueFilters) (position : QueuePosition) : String :=
  codec.encodedCursor filters.kind (codec.fingerprint filters.payload) position.payload

/-- A query that is called with valid arguments **issues** a cursor at the position of a row; the
last arguments are the payload and the text. -/
inductive Issues : CursorQuery → CursorPosition → PyVal → String → Prop
  | transactions {query : TransactionQuery} {filters : QueryFilters}
    (hfilters : query.filters = .ok filters) (createdAtUtc id : String) :
    Issues (.transactions query) (.transaction createdAtUtc id)
      (queryCursorPayload createdAtUtc id (codec.fingerprint (filters.payload codec)))
      (codec.encodeQueryCursor createdAtUtc id (codec.fingerprint (filters.payload codec)))
  | items (statuses : Option (List QueueStatus)) (createdAt id : String) :
    Issues (.items statuses) (.record (.item createdAt id))
      (codec.queuePayload (itemFilters statuses) (.item createdAt id))
      (codec.queueCursor (itemFilters statuses) (.item createdAt id))
  | attempts {itemId : Option String} (hitem : validatedOptionalItemId itemId = .ok ()) {n : ℕ}
    (hn : n < 2 ^ 63) : Issues (.attempts itemId) (.record (.sequence n))
      (codec.queuePayload (.attempts itemId) (.sequence n))
      (codec.queueCursor (.attempts itemId) (.sequence n))
  | poisonEvents {itemId : Option String} (hitem : validatedOptionalItemId itemId = .ok ()) {n : ℕ}
    (hn : n < 2 ^ 63) : Issues (.poisonEvents itemId) (.record (.sequence n))
      (codec.queuePayload (.poisonEvents itemId) (.sequence n))
      (codec.queueCursor (.poisonEvents itemId) (.sequence n))

end CursorCodec

/-- The arguments of a query are valid. -/
def CursorQuery.Valid : CursorQuery → Prop
  | transactions query => ∃ filters, query.filters = .ok filters
  | items _ => True
  | attempts itemId => validatedOptionalItemId itemId = .ok ()
  | poisonEvents itemId => validatedOptionalItemId itemId = .ok ()

/-- The values whose texts the fingerprint of a query is computed from. -/
def CursorQuery.values (codec : CursorCodec) : CursorQuery → List PyVal
  | transactions query =>
    match query.filters with
    | .ok filters => filters.payload codec :: filters.metadata.map Prod.snd
    | .error _ => []
  | items statuses => [(itemFilters statuses).payload]
  | attempts itemId => [(QueueFilters.attempts itemId).payload]
  | poisonEvents itemId => [(QueueFilters.poisonEvents itemId).payload]

variable {codec : CursorCodec}

/-- A cursor of queue records is read with its filters, and with no others. -/
lemma CursorCodec.decodedCursor_queuePayload (hsha : Function.Injective codec.sha256)
    {filters filters' : QueueFilters} {entries : List (String × PyVal)} {position : QueuePosition}
    (hposition : position.payload = .record entries)
    (h : codec.Reads (codec.queuePayload filters position)) (hfilters : codec.Reads filters.payload)
    (hfilters' : codec.Reads filters'.payload) :
    codec.decodedCursor (codec.cursorText (codec.queuePayload filters position)) filters'.kind
        (codec.fingerprint filters'.payload) =
      if filters = filters' then .ok (entries.map fun (k, v) => (.str k, v))
      else .error (.valueError "cursor does not match the queue query kind or filters") := by
  have hsame : filters.kind = filters'.kind ∧
      codec.fingerprint filters.payload = codec.fingerprint filters'.payload ↔
        filters = filters' := by
    rw [fingerprint_inj hsha hfilters hfilters', QueueFilters.payload_inj, and_iff_right_iff_imp]
    exact congrArg _
  rw [queuePayload, hposition, PyVal.record] at h ⊢
  rw [decodedCursor_cursorText h]
  simp only [hsame]

namespace CursorQuery

variable {query other : CursorQuery} {filters filters' : QueueFilters}

/-- The filters of a query for queue records. -/
def queueFilters? : CursorQuery → Option QueueFilters
  | transactions _ => none
  | items statuses => some (itemFilters statuses)
  | attempts itemId => some (.attempts itemId)
  | poisonEvents itemId => some (.poisonEvents itemId)

/-- What a query for queue records reads from the entries of a position. -/
def parse (filters : QueueFilters) (position : List (PyVal × PyVal)) :
    Except PyError CursorPosition :=
  match filters with
  | .items _ => do
    let createdAt ← positionText position "created_at"
    let id ← positionText position "id"
    pure (.record (.item createdAt id))
  | _ => do
    let n ← positionNumber position
    pure (.record (.sequence n))

/-- A query for queue records reads the position of a cursor with its filters. -/
lemma decode_queue (hvalid : query.Valid) (hfilters : query.queueFilters? = some filters)
    (cursor : String) : query.decode codec cursor =
      codec.decodedCursor cursor filters.kind (codec.fingerprint filters.payload) >>=
        parse filters := by
  cases query with
  | transactions _ => cases hfilters
  | items statuses =>
    cases hfilters
    rfl
  | attempts itemId =>
    cases hfilters
    have hitem : validatedOptionalItemId itemId = .ok () := hvalid
    rw [decode, hitem]
    rfl
  | poisonEvents itemId =>
    cases hfilters
    have hitem : validatedOptionalItemId itemId = .ok () := hvalid
    rw [decode, hitem]
    rfl

/-- Queries for queue records have equal filters if their normal forms are equal. -/
lemma normal_eq_iff (hfilters : query.queueFilters? = some filters)
    (hfilters' : other.queueFilters? = some filters') :
    filters = filters' ↔ query.normal = other.normal := by
  cases query <;> cases other <;> simp only [queueFilters?, reduceCtorEq, Option.some.injEq] at *
  · rw [← hfilters, ← hfilters', itemFilters_eq_iff, normal, normal, NormalQuery.items.injEq]
  all_goals
    subst hfilters hfilters'
    simp [normal, itemFilters]

/-- The payload of the filters is among the values of a query for queue records. -/
lemma payload_mem_values (hfilters : query.queueFilters? = some filters) :
    filters.payload ∈ query.values codec := by
  cases query <;> cases hfilters <;> simp [values]

/-- A query for transactions has a normal form of its own. -/
lemma normal_ne_transactions {query' : TransactionQuery}
    (hfilters : query.queueFilters? = some filters) :
    query.normal ≠ (transactions query').normal := by
  cases query <;> simp [normal, queueFilters?] at hfilters ⊢

end CursorQuery

/-- The number of a row is read from its position. -/
lemma positionNumber_sequence {n : ℕ} (hn : n < 2 ^ 63) :
    positionNumber [(.str "sequence", .int n)] = .ok n := by
  have hle : 0 ≤ (n : ℤ) ∧ (n : ℤ) ≤ 2 ^ 63 - 1 := by omega
  exact if_pos hle

/-- A cursor is the text of its payload. -/
lemma CursorCodec.Issues.cursor_eq {query : CursorQuery} {position : CursorPosition}
    {payload : PyVal} {cursor : String} (h : codec.Issues query position payload cursor) :
    cursor = codec.cursorText payload := by
  cases h <;> rfl

/-- A query for queue records issues cursors at positions that it reads. -/
lemma CursorCodec.Issues.queue {query : CursorQuery} {position : CursorPosition} {payload : PyVal}
    {cursor : String} (h : codec.Issues query position payload cursor) {filters : QueueFilters}
    (hfilters : query.queueFilters? = some filters) : query.Valid ∧ ∃ place entries,
      payload = codec.queuePayload filters place ∧ place.payload = .record entries ∧
        CursorQuery.parse filters (entries.map fun (k, v) => (.str k, v)) = .ok position := by
  cases h with
  | transactions _ _ _ => cases hfilters
  | items statuses createdAt id =>
    cases hfilters
    exact ⟨trivial, _, _, rfl, rfl, rfl⟩
  | @attempts itemId hitem n hn =>
    cases hfilters
    refine ⟨hitem, _, _, rfl, rfl, ?_⟩
    rw [CursorQuery.parse, List.map_singleton, positionNumber_sequence hn]
    · rfl
    · simp
  | @poisonEvents itemId hitem n hn =>
    cases hfilters
    refine ⟨hitem, _, _, rfl, rfl, ?_⟩
    rw [CursorQuery.parse, List.map_singleton, positionNumber_sequence hn]
    · rfl
    · simp

/-- A query for transactions reads a cursor with its filters, and with no others. -/
lemma CursorQuery.decode_transactions (hsha : Function.Injective codec.sha256)
    {query query' : TransactionQuery} {filters filters' : QueryFilters} {createdAtUtc id : String}
    (hfilters : query.filters = .ok filters) (hfilters' : query'.filters = .ok filters')
    (h : ∀ v ∈ (CursorQuery.transactions query).values codec, codec.Reads v)
    (h' : ∀ v ∈ (CursorQuery.transactions query').values codec, codec.Reads v)
    (hpayload : codec.Reads (CursorCodec.queryCursorPayload createdAtUtc id
      (codec.fingerprint (filters.payload codec)))) :
    (CursorQuery.transactions query').decode codec (codec.cursorText
      (CursorCodec.queryCursorPayload createdAtUtc id
        (codec.fingerprint (filters.payload codec)))) =
      if filters = filters' then .ok (.transaction createdAtUtc id)
      else .error (.valueError "cursor does not match the transaction query filters") := by
  simp only [CursorQuery.values, hfilters, hfilters', List.forall_mem_cons,
    List.forall_mem_map] at h h'
  have hsame : codec.fingerprint (filters.payload codec) =
      codec.fingerprint (filters'.payload codec) ↔ filters = filters' := by
    rw [CursorCodec.fingerprint_inj hsha h.1 h'.1, QueryFilters.payload_inj h.2 h'.2]
  rw [CursorQuery.decode, hfilters']
  simp only [bind, Except.bind, CursorCodec.decodeQueryCursor_cursorText hpayload, hsame]
  by_cases heq : filters = filters'
  · simp only [heq, if_true]
    rfl
  · simp only [heq, if_false]

/-- **Cursors round-trip and are bound to their query.** A query reads the position back from a
cursor that it issued, and another query accepts the cursor exactly if both have the same normal
form.

**Proof sketch.** The text of a cursor is read as its payload: base64 is read as the bytes that were
written, with the padding restored from the length. The fingerprints are equal exactly if the
payloads of the filters are, because both maps are injective; and these are equal exactly if the
normal forms are, because the texts of statuses and instants in sorted order, or in UTC, are those
of a set and of an instant. A cursor of the other module fails on its kind or on its fingerprint. -/
theorem cursors_bound (hsha : Function.Injective codec.sha256) {query other : CursorQuery}
    {position : CursorPosition} {payload : PyVal} {cursor : String}
    (h : codec.Issues query position payload cursor) (hother : other.Valid)
    (hjson : ∀ v ∈ payload :: query.values codec ++ other.values codec, codec.Reads v) :
    query.decode codec cursor = .ok position ∧
    ((∃ position', other.decode codec cursor = .ok position') ↔ query.normal = other.normal) := by
  rw [h.cursor_eq]
  have hpayload : codec.Reads payload := hjson payload (by simp)
  have hquery : ∀ v ∈ query.values codec, codec.Reads v := fun v hv => hjson v (by simp [hv])
  have hothers : ∀ v ∈ other.values codec, codec.Reads v := fun v hv => hjson v (by simp [hv])
  cases hkind : query.queueFilters? with
  | some filters =>
    obtain ⟨hvalid, place, entries, rfl, hentries, hparse⟩ := h.queue hkind
    have hfilters := hquery _ (CursorQuery.payload_mem_values hkind)
    constructor
    · rw [CursorQuery.decode_queue hvalid hkind, CursorCodec.decodedCursor_queuePayload hsha
        hentries hpayload hfilters hfilters, if_pos rfl]
      exact hparse
    · cases hkind' : other.queueFilters? with
      | some filters' =>
        have hfilters' := hothers _ (CursorQuery.payload_mem_values hkind')
        rw [CursorQuery.decode_queue hother hkind', CursorCodec.decodedCursor_queuePayload hsha
          hentries hpayload hfilters hfilters', ← CursorQuery.normal_eq_iff hkind hkind']
        by_cases heq : filters = filters'
        · subst heq
          rw [if_pos rfl]
          exact iff_of_true ⟨position, hparse⟩ rfl
        · rw [if_neg heq]
          refine iff_of_false ?_ heq
          rintro ⟨position', h⟩
          cases h
      | none =>
        cases other with
        | transactions query' =>
          refine iff_of_false ?_ (CursorQuery.normal_ne_transactions hkind)
          obtain ⟨filters', hfilters'⟩ := hother
          have hpayload' := hothers (filters'.payload codec) (by
            simp [CursorQuery.values, hfilters'])
          have hne : codec.fingerprint filters.payload ≠
              codec.fingerprint (filters'.payload codec) := by
            rw [ne_eq, CursorCodec.fingerprint_inj hsha hfilters hpayload']
            exact fun heq => QueryFilters.payload_ne heq.symm
          rintro ⟨position', h⟩
          rw [CursorQuery.decode, hfilters'] at h
          simp only [bind, Except.bind, CursorCodec.queuePayload,
            CursorCodec.decodeQueryCursor_queue hpayload hne, reduceCtorEq] at h
        | items _ => cases hkind'
        | attempts _ => cases hkind'
        | poisonEvents _ => cases hkind'
  | none =>
    cases h with
    | @transactions query filters hfilters createdAtUtc id =>
      constructor
      · rw [CursorQuery.decode_transactions hsha hfilters hfilters hquery hquery hpayload,
          if_pos rfl]
      · cases hkind' : other.queueFilters? with
        | some filters' =>
          refine iff_of_false ?_ (CursorQuery.normal_ne_transactions hkind').symm
          rintro ⟨position', h⟩
          rw [CursorQuery.decode_queue hother hkind',
            CursorCodec.decodedCursor_transactions hpayload] at h
          cases h
        | none =>
          cases other with
          | transactions query' =>
            obtain ⟨filters', hfilters'⟩ := hother
            rw [CursorQuery.decode_transactions hsha hfilters hfilters' hquery hothers hpayload,
              ← TransactionQuery.filters_eq_iff hfilters hfilters']
            by_cases heq : filters = filters'
            · simp [heq]
            · simp [heq]
          | items _ => cases hkind'
          | attempts _ => cases hkind'
          | poisonEvents _ => cases hkind'
    | items _ _ _ => cases hkind
    | attempts _ _ => cases hkind
    | poisonEvents _ _ => cases hkind

/-! ## Cursors of pages -/

/-- The cursor of a page of transactions is issued by the query. -/
lemma queryTransactions_issues {db : TransactionDb} {query : TransactionQuery}
    {cursor : Option QueryCursor} {limit : ℤ} {page : TransactionPage}
    (h : db.queryTransactions query cursor limit = .ok page) {c : QueryCursor}
    (hc : c ∈ page.nextCursor) :
    codec.Issues (.transactions query) (.transaction c.createdAtUtc c.id)
      (CursorCodec.queryCursorPayload c.createdAtUtc c.id
        (codec.fingerprint (c.filters.payload codec)))
      (codec.encodeQueryCursor c.createdAtUtc c.id
        (codec.fingerprint (c.filters.payload codec))) := by
  unfold TransactionDb.queryTransactions at h
  split at h
  · cases h
  · obtain ⟨filters, hfilters, h⟩ := Except.bind_eq_ok.mp h
    obtain ⟨_, -, h⟩ := Except.bind_eq_ok.mp h
    obtain ⟨_, -, h⟩ := Except.bind_eq_ok.mp h
    cases h
    simp only [Option.mem_def] at hc
    split at hc
    · obtain ⟨row, -, rfl⟩ := Option.map_eq_some_iff.mp hc
      exact .transactions hfilters _ _
    · cases hc

/-- The cursor of a page of items is issued by the query. -/
lemma queryQueueItems_issues {jsonLoads : String → Except PyError PyVal} {db : QueueDb}
    {statuses : Option (List QueueStatus)} {cursor : Option QueueCursor} {limit : ℤ}
    {page : QueuePage QueueItem}
    (h : db.queryQueueItems jsonLoads statuses cursor limit = .ok page) {c : QueueCursor}
    (hc : c ∈ page.nextCursor) :
    codec.Issues (.items statuses) (.record c.position)
      (codec.queuePayload c.filters c.position) (codec.queueCursor c.filters c.position) := by
  obtain ⟨-, hshows⟩ := queryQueueItems_page h
  rw [hshows.nextCursor, Option.mem_def] at hc
  split at hc
  · obtain ⟨row, -, rfl⟩ := Option.map_eq_some_iff.mp hc
    exact .items statuses _ _
  · cases hc

/-- The cursor of a page of events is at the number of a row, which SQLite keeps in 63 bits. -/
lemma queryEvents_issues {ρ : Type} {filters : Option String → QueueFilters} {sequence : ρ → ℕ}
    {owner : ρ → String} {itemId : Option String} {cursor : Option QueueCursor} {limit : ℤ}
    {events : List ρ} {page : QueuePage ρ} {query : CursorQuery}
    (hissues : validatedOptionalItemId itemId = .ok () → ∀ n : ℕ, n < 2 ^ 63 → codec.Issues query
      (.record (.sequence n)) (codec.queuePayload (filters itemId) (.sequence n))
      (codec.queueCursor (filters itemId) (.sequence n)))
    (hrowid : ∀ row ∈ events, sequence row < 2 ^ 63)
    (h : QueueDb.queryEvents filters sequence owner itemId cursor limit events = .ok page)
    {c : QueueCursor} (hc : c ∈ page.nextCursor) :
    codec.Issues query (.record c.position) (codec.queuePayload c.filters c.position)
      (codec.queueCursor c.filters c.position) := by
  have hitem : validatedOptionalItemId itemId = .ok () := by
    obtain ⟨_, -, h⟩ := Except.bind_eq_ok.mp h
    obtain ⟨_, hitem, -⟩ := Except.bind_eq_ok.mp h
    exact hitem
  obtain ⟨-, rfl⟩ := queryEvents_eq h
  simp only [eventPage, Option.mem_def] at hc
  split at hc
  · obtain ⟨row, hrow, rfl⟩ := Option.map_eq_some_iff.mp hc
    have hmem := List.mem_of_getLast? hrow
    rw [Keyset.page_records] at hmem
    have hmem := Keyset.mem_select.mp (List.mem_of_mem_take hmem)
    exact hissues hitem _ (hrowid row (List.mem_of_mem_filter hmem.1))
  · cases hc

/-- The cursor of a page of attempts is issued by the query. -/
lemma queryQueueAttempts_issues {db : QueueDb} {itemId : Option String}
    {cursor : Option QueueCursor} {limit : ℤ} {page : QueuePage QueueAttemptRow}
    (hrowid : ∀ row ∈ db.attempts, row.sequence < 2 ^ 63)
    (h : db.queryQueueAttempts itemId cursor limit = .ok page) {c : QueueCursor}
    (hc : c ∈ page.nextCursor) :
    codec.Issues (.attempts itemId) (.record c.position)
      (codec.queuePayload c.filters c.position) (codec.queueCursor c.filters c.position) :=
  queryEvents_issues (fun hitem _ hn => .attempts hitem hn) hrowid h hc

/-- The cursor of a page of poison events is issued by the query. -/
lemma queryQueuePoisonEvents_issues {db : QueueDb} {itemId : Option String}
    {cursor : Option QueueCursor} {limit : ℤ} {page : QueuePage QueuePoisonRow}
    (hrowid : ∀ row ∈ db.poison, row.sequence < 2 ^ 63)
    (h : db.queryQueuePoisonEvents itemId cursor limit = .ok page) {c : QueueCursor}
    (hc : c ∈ page.nextCursor) :
    codec.Issues (.poisonEvents itemId) (.record c.position)
      (codec.queuePayload c.filters c.position) (codec.queueCursor c.filters c.position) :=
  queryEvents_issues (fun hitem _ hn => .poisonEvents hitem hn) hrowid h hc

/-! ## A query for items -/

/-- The payload of the filters of a query for all items. -/
def allItemsPayload : PyVal := (itemFilters none).payload

/-- Its fingerprint. -/
def allItemsFingerprint : String :=
  "b64e813d703a80ac9788040cdf7a3d7ebe1aa01daa4b0acace4c7ee4315ff8a0"

/-- The payload of a query for items with one of no statuses, and its fingerprint. -/
def noItemsPayload : PyVal := (itemFilters (some [])).payload

/-- Its fingerprint. -/
def noItemsFingerprint : String :=
  "0049f8b931cdabb40d6d551c937085fad7d7c2c7e289722b2c812aabbe7d2023"

/-- The payload of a cursor to all items. -/
def sampleCursorPayload : PyVal :=
  CursorCodec.cursorPayload "queue_items" allItemsFingerprint
    (QueuePosition.payload (.item "2024-01-01T00:00:00+00:00" "a"))

/-- The JSON texts of these payloads. -/
def sampleDumps (v : PyVal) : String :=
  if v = allItemsPayload then "\x7b\"kind\":\"queue_items\",\"statuses\":null\x7d"
  else if v = noItemsPayload then "\x7b\"kind\":\"queue_items\",\"statuses\":[]\x7d"
  else if v = sampleCursorPayload then
    "\x7b\"filters\":\"" ++ allItemsFingerprint ++ "\",\"kind\":\"queue_items\"," ++
      "\"position\":\x7b\"created_at\":\"2024-01-01T00:00:00+00:00\",\"id\":\"a\"\x7d," ++
      "\"version\":1\x7d"
  else ""

/-- What these texts are read as. -/
def sampleLoads (bytes : List UInt8) : Option PyVal :=
  if bytes = utf8 (sampleDumps allItemsPayload) then some allItemsPayload
  else if bytes = utf8 (sampleDumps noItemsPayload) then some noItemsPayload
  else if bytes = utf8 (sampleDumps sampleCursorPayload) then some sampleCursorPayload
  else none

/-- Other bytes have texts of their own, which are no fingerprints. -/
def otherDigest (bytes : List UInt8) : String :=
  .ofList ('-' :: bytes.map fun b => Char.ofNat b.toNat)

/-- The SHA-256 of two of these texts. -/
def sampleSha256 (bytes : List UInt8) : String :=
  if bytes = utf8 (sampleDumps allItemsPayload) then allItemsFingerprint
  else if bytes = utf8 (sampleDumps noItemsPayload) then noItemsFingerprint
  else otherDigest bytes

/-- `json` and SHA-256 on these values. -/
def sampleCodec : CursorCodec := ⟨sampleDumps, sampleLoads, sampleSha256, by decide +kernel⟩

/-- A cursor to all items. -/
def sampleCursor : String :=
  sampleCodec.encodedCursor "queue_items" allItemsFingerprint
    (QueuePosition.payload (.item "2024-01-01T00:00:00+00:00" "a"))

/-- Different bytes have different texts. -/
lemma sampleSha256_injective : Function.Injective sampleSha256 := by
  have hne : ∀ bytes, otherDigest bytes ≠ allItemsFingerprint ∧
      otherDigest bytes ≠ noItemsFingerprint := by
    intro bytes
    constructor
    all_goals
      intro h
      have hhead := congrArg (fun text => text.toList.head?) h
      rw [otherDigest, String.toList_ofList, List.head?_cons] at hhead
      exact absurd hhead (by decide +kernel)
  have hinj : Function.Injective otherDigest := by
    intro a b h
    have hlist := congrArg String.toList h
    rw [otherDigest, otherDigest, String.toList_ofList, String.toList_ofList,
      List.cons.injEq] at hlist
    have hchar : ∀ n : Fin 256, (Char.ofNat n).toNat = n := by decide +kernel
    refine List.map_injective_iff.mpr (fun x y hxy => UInt8.toNat_inj.mp ?_) hlist.2
    have hx := hchar ⟨x.toNat, x.toNat_lt⟩
    rw [hxy] at hx
    exact hx.symm.trans (hchar ⟨y.toNat, y.toNat_lt⟩)
  intro a b h
  unfold sampleSha256 at h
  have hdiffer : allItemsFingerprint ≠ noItemsFingerprint := by decide +kernel
  split_ifs at h with ha hb hb' ha' hb hb' hb hb'
  · exact ha.trans hb.symm
  · exact absurd h hdiffer
  · exact absurd h.symm (hne b).1
  · exact absurd h.symm hdiffer
  · exact ha'.trans hb'.symm
  · exact absurd h.symm (hne b).2
  · exact absurd h (hne a).1
  · exact absurd h (hne a).2
  · exact hinj h

/-- A cursor to all items is read by the query that issued it, and not by one for no items. -/
theorem cursors_bound_items :
    (CursorQuery.items none).decode sampleCodec sampleCursor =
      .ok (.record (.item "2024-01-01T00:00:00+00:00" "a")) ∧
    ¬ ∃ position, (CursorQuery.items (some [])).decode sampleCodec sampleCursor =
      .ok position := by
  have hfingerprint : sampleCodec.fingerprint (itemFilters none).payload = allItemsFingerprint := by
    decide +kernel
  have hissues : sampleCodec.Issues (.items none)
      (.record (.item "2024-01-01T00:00:00+00:00" "a")) sampleCursorPayload sampleCursor := by
    rw [sampleCursorPayload, sampleCursor, ← hfingerprint]
    exact .items none _ _
  have hreads : ∀ v ∈ sampleCursorPayload :: (CursorQuery.items none).values sampleCodec ++
      (CursorQuery.items (some [])).values sampleCodec, sampleCodec.Reads v := by
    unfold CursorCodec.Reads
    decide +kernel
  obtain ⟨hround, hbound⟩ := cursors_bound sampleSha256_injective hissues
    (show (CursorQuery.items (some [])).Valid from trivial) hreads
  exact ⟨hround, fun h => absurd (hbound.mp h) (by decide)⟩
