import Mathlib.Data.List.Nodup

/-!
# Checked headers

The event transformers keep, in `public.checked_headers`, one row per header whose logs they
have fetched, keyed by `header_id` (every upsert names it in `ON CONFLICT (header_id)`), with one
boolean column per transformer. The `MissingHeaders` query of a transformer lists the headers of
its node in a block range whose row is absent or has that transformer's column false.

This module models the table with the column of one transformer. A row that another transformer
inserted has the column at its default, `FALSE`: the repository tests insert bare `(header_id)`
rows and expect the header to be reported missing, which `IS FALSE` does for `FALSE` and not for
`NULL`.

**Results.**
* `flag_upsert`: the upsert sets the flag of its header, and of no other.
* `mem_missingHeaders`: the left join lists exactly the headers of the node in the range whose
  flag is not set.
* `missingHeaders_nodup`: it lists each header at most once, since a header meets at most one
  row of the join.
-/

namespace IpldEthIndexer
namespace Transformers

/-- A row of `public.headers`: the columns the queries of the transformers read. -/
structure HeadersRow where
  id : Int
  blockNumber : Int
  ethNodeFingerprint : String
deriving DecidableEq, Repr

/-- `core.Header` as `MissingHeaders` fills it: `SELECT headers.id, headers.block_number`. -/
structure Header where
  id : Int
  blockNumber : Int
deriving DecidableEq, Repr

/-- A row of `public.checked_headers`, with the column of one transformer. -/
structure CheckedHeader where
  headerId : Int
  checked : Bool
deriving DecidableEq, Repr

/-- `public.checked_headers`, whose `header_id` is unique. -/
structure CheckedHeaders where
  rows : List CheckedHeader
  unique : (rows.map (·.headerId)).Nodup

/-- `INSERT INTO public.checked_headers (header_id, <column>) VALUES ($1, TRUE)
ON CONFLICT (header_id) DO UPDATE SET <column> = TRUE`, on the rows of the table. -/
def upsertRows (headerID : Int) : List CheckedHeader → List CheckedHeader
  | [] => [⟨headerID, true⟩]
  | c :: cs =>
      if c.headerId = headerID then { c with checked := true } :: cs
      else c :: upsertRows headerID cs

theorem map_headerId_upsertRows (headerID : Int) : ∀ rows : List CheckedHeader,
    (upsertRows headerID rows).map (·.headerId) =
      if headerID ∈ rows.map (·.headerId) then rows.map (·.headerId)
      else rows.map (·.headerId) ++ [headerID]
  | [] => rfl
  | c :: cs => by
      by_cases hc : c.headerId = headerID
      · simp [upsertRows, hc]
      · have hne : headerID ≠ c.headerId := Ne.symm hc
        simp only [upsertRows, hc, ↓reduceIte, List.map_cons, map_headerId_upsertRows headerID cs,
          List.mem_cons, hne, false_or]
        split_ifs <;> rfl

theorem nodup_upsertRows {headerID : Int} {rows : List CheckedHeader}
    (h : (rows.map (·.headerId)).Nodup) :
    ((upsertRows headerID rows).map (·.headerId)).Nodup := by
  rw [map_headerId_upsertRows]
  split_ifs with hm
  · exact h
  · rw [← List.concat_eq_append]
    exact h.concat hm

theorem find?_upsertRows (headerID id : Int) : ∀ rows : List CheckedHeader,
    ((upsertRows headerID rows).find? (·.headerId == id)).map (·.checked) =
      if id = headerID then some true else (rows.find? (·.headerId == id)).map (·.checked)
  | [] => by
      by_cases h : id = headerID
      · subst h
        simp [upsertRows]
      · simp [upsertRows, h, Ne.symm h]
  | c :: cs => by
      by_cases hc : c.headerId = headerID <;> by_cases hi : c.headerId = id
      · subst hc hi
        simp [upsertRows]
      · have : id ≠ headerID := fun h => hi (hc.trans h.symm)
        simp [upsertRows, hc, hi, this, Ne.symm this]
      · have : id ≠ headerID := fun h => hc (hi.trans h)
        simp [upsertRows, hc, hi, this]
      · simp [upsertRows, hc, hi, find?_upsertRows headerID id cs]

namespace CheckedHeaders

/-- The upsert of the transformer's column. -/
def upsert (t : CheckedHeaders) (headerID : Int) : CheckedHeaders :=
  ⟨upsertRows headerID t.rows, nodup_upsertRows t.unique⟩

/-- The flag of a header: that of its row, and `none` when it has none. -/
def flag (t : CheckedHeaders) (headerID : Int) : Option Bool :=
  (t.rows.find? (·.headerId == headerID)).map (·.checked)

/-- **The upsert sets the flag of its header.** A header without a row gets one with the flag
set, a row with the flag false has it set, and every other header keeps its flag. -/
theorem flag_upsert (t : CheckedHeaders) (headerID id : Int) :
    (t.upsert headerID).flag id = if id = headerID then some true else t.flag id :=
  find?_upsertRows headerID id t.rows

/-- Two rows of one header are the same row. -/
theorem eq_of_headerId (t : CheckedHeaders) {c d : CheckedHeader} (hc : c ∈ t.rows)
    (hd : d ∈ t.rows) (h : c.headerId = d.headerId) : c = d :=
  List.inj_on_of_nodup_map t.unique hc hd h

theorem flag_of_mem (t : CheckedHeaders) {c : CheckedHeader} (hc : c ∈ t.rows) :
    t.flag c.headerId = some c.checked := by
  unfold flag
  cases h : t.rows.find? (·.headerId == c.headerId) with
  | none => simpa using List.find?_eq_none.mp h c hc
  | some d =>
      have hd : d.headerId = c.headerId := by simpa using List.find?_some h
      rw [t.eq_of_headerId (List.mem_of_find?_eq_some h) hc hd]
      rfl

theorem flag_eq_none (t : CheckedHeaders) {id : Int} (h : ∀ c ∈ t.rows, c.headerId ≠ id) :
    t.flag id = none := by
  simp only [flag, Option.map_eq_none', List.find?_eq_none, beq_iff_eq]
  exact h

end CheckedHeaders

/-! ## The left join of `MissingHeaders` -/

/-- The rows a header meets in `LEFT JOIN checked_headers ON headers.id = header_id`: its rows,
or one `NULL` row when it has none. -/
def joined (rows : List CheckedHeader) (id : Int) : List (Option CheckedHeader) :=
  match rows.filter (·.headerId == id) with
  | [] => [none]
  | ms => ms.map some

/-- `header_id ISNULL OR <column> IS FALSE`. -/
def nullOrFalse : Option CheckedHeader → Bool
  | none => true
  | some c => !c.checked

/-- The query of `MissingHeaders` for the node `node` and the blocks `s` to `e`:
`SELECT headers.id, headers.block_number FROM headers LEFT JOIN checked_headers
ON headers.id = header_id WHERE (header_id ISNULL OR <column> IS FALSE)
AND headers.block_number >= $1 AND headers.block_number <= $2
AND headers.eth_node_fingerprint = $3`, in the order of `headers`. -/
def missingHeaders (node : String) (s e : Int) (headers : List HeadersRow) (t : CheckedHeaders) :
    List Header :=
  headers.flatMap fun h =>
    ((joined t.rows h.id).filter fun c =>
      nullOrFalse c && decide (s ≤ h.blockNumber) && decide (h.blockNumber ≤ e) &&
        h.ethNodeFingerprint == node).map fun _ => ⟨h.id, h.blockNumber⟩

/-- With `header_id` unique, a header meets a row that is `NULL` or false exactly when its flag
is not set. -/
theorem exists_joined_nullOrFalse (t : CheckedHeaders) (id : Int) :
    (∃ c ∈ joined t.rows id, nullOrFalse c = true) ↔ t.flag id ≠ some true := by
  cases hf : t.rows.filter (·.headerId == id) with
  | nil =>
      have hn := t.flag_eq_none fun c hc hid =>
        List.filter_eq_nil_iff.mp hf c hc (beq_iff_eq.mpr hid)
      simp [joined, hf, hn, nullOrFalse]
  | cons c cs =>
      have hmem : ∀ d ∈ c :: cs, d ∈ t.rows ∧ d.headerId = id := fun d hd => by
        rwa [← hf, List.mem_filter, beq_iff_eq] at hd
      obtain ⟨hc, rfl⟩ := hmem c (List.mem_cons_self c cs)
      simp only [joined, hf, t.flag_of_mem hc, List.mem_map]
      constructor
      · rintro ⟨_, ⟨d, hd, rfl⟩, hn⟩
        rw [t.eq_of_headerId (hmem d hd).1 hc (hmem d hd).2] at hn
        simpa [nullOrFalse] using hn
      · intro h
        exact ⟨some c, ⟨c, List.mem_cons_self c cs, rfl⟩, by simpa [nullOrFalse] using h⟩

/-- **What `MissingHeaders` returns.** With `header_id` unique in `checked_headers`, the query
lists exactly the headers of the node whose block number lies between `s` and `e` and whose flag
is not set: no row, or a row with the flag false. -/
theorem mem_missingHeaders {node : String} {s e : Int} {headers : List HeadersRow}
    {t : CheckedHeaders} {x : Header} :
    x ∈ missingHeaders node s e headers t ↔
      ∃ h ∈ headers, x = ⟨h.id, h.blockNumber⟩ ∧ h.ethNodeFingerprint = node ∧
        s ≤ h.blockNumber ∧ h.blockNumber ≤ e ∧ t.flag h.id ≠ some true := by
  simp only [missingHeaders, List.mem_flatMap, List.mem_map, List.mem_filter, Bool.and_eq_true,
    decide_eq_true_eq, beq_iff_eq, ← exists_joined_nullOrFalse]
  constructor
  · rintro ⟨h, hh, c, ⟨hc, ⟨⟨hn, hs⟩, he⟩, hnode⟩, rfl⟩
    exact ⟨h, hh, rfl, hnode, hs, he, c, hc, hn⟩
  · rintro ⟨h, hh, rfl, hnode, hs, he, c, hc, hn⟩
    exact ⟨h, hh, c, ⟨hc, ⟨⟨hn, hs⟩, he⟩, hnode⟩, rfl⟩

/-- With `header_id` unique, a header meets one row of the left join: its row, or `NULL`. -/
theorem length_joined_le (t : CheckedHeaders) (id : Int) : (joined t.rows id).length ≤ 1 := by
  have hn : ((t.rows.filter (·.headerId == id)).map (·.headerId)).Nodup :=
    t.unique.sublist ((List.filter_sublist _).map _)
  have hr : (t.rows.filter (·.headerId == id)).map (·.headerId) =
      List.replicate (t.rows.filter (·.headerId == id)).length id :=
    List.eq_replicate_iff.mpr ⟨List.length_map _ _, fun b hb => by
      obtain ⟨c, hc, rfl⟩ := List.mem_map.mp hb
      simpa using (List.mem_filter.mp hc).2⟩
  rw [hr, List.nodup_replicate] at hn
  unfold joined
  split <;> simp_all

theorem nodup_of_length_le_one {α : Type} : ∀ {l : List α}, l.length ≤ 1 → l.Nodup
  | [], _ => List.nodup_nil
  | [_], _ => List.nodup_singleton _
  | _ :: _ :: _, h => by simp at h

/-- **`MissingHeaders` lists no header twice.** When `headers.id` is unique, the left join
returns each header at most once: `header_id` is unique in `checked_headers`, so a header meets
one row of it or none. -/
theorem missingHeaders_nodup {node : String} {s e : Int} {headers : List HeadersRow}
    (t : CheckedHeaders) (hu : (headers.map (·.id)).Nodup) :
    (missingHeaders node s e headers t).Nodup := by
  refine List.nodup_flatMap.mpr ⟨fun h _ => nodup_of_length_le_one ?_, ?_⟩
  · rw [List.length_map]
    exact (List.length_filter_le _ _).trans (length_joined_le t h.id)
  · -- rows of different headers carry different ids
    refine (List.pairwise_map.mp hu).imp fun hne x hxa hxb => hne ?_
    obtain ⟨_, _, rfl⟩ := List.mem_map.mp hxa
    obtain ⟨_, _, h⟩ := List.mem_map.mp hxb
    exact (congrArg Header.id h).symm

end Transformers
end IpldEthIndexer
