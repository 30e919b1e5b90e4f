import IpldEthIndexer.Eth.Scope

/-!
# Cleaning several ranges

`Clean` sends the statements of every range, one range after another, inside one transaction.
What it removes then follows from `cleanEffect_deferredCheck`: when deleting a blob does not
cascade to the rows that reference it (`KeyAction.deferredCheck`), the loop over the ranges is a
single clean over their union, a successful `Clean` removes exactly the scope of its kind from
`eth`, and it removes every blob that only removed rows referenced.

**Cascading blob references.** Under `KeyAction.cascade` a blob shared by a row of the scope and
a row outside it takes the latter with it, and the rows below that row go by the parent cascade
while no statement joins their blobs any more. On `forkDb`, where one transaction was indexed
under the headers of blocks 10 and 11, a `Clean` of the transactions of block 10 removes those
of block 11 as well, leaves the blob of block 11's receipt referenced by no row, and the two
orders of the ranges `[10, 10]` and `[11, 11]` leave different databases.

**Bounds from `2^63` on.** A range whose bounds `database/sql` refuses fails every `Clean` that
contains it, while one clean over the union of the ranges names no bound.

**Results.**
* `rangesEffect_deferredCheck`: the loop over the ranges is one clean over their union.
* `Clean_removes_scope`, `Clean_no_orphans`: what a successful `Clean` removes.
* `Clean_union`: over ranges that convert, `Clean` is one clean over the union of its ranges, so
  every such list of ranges with that union gives the same `Clean`, and a second `Clean`
  changes nothing.
* `Clean_succeeds_iff`: a `Clean` without faults commits exactly when its ranges convert and no
  blob of its scope is shared with a row outside it.
-/

namespace IpldEthIndexer
namespace Eth

open Postgres

/-- The loop of `Clean` is one clean over the union of the ranges. -/
theorem rangesEffect_deferredCheck (t : DataType) : ∀ (rngs : List Range) (db : Db),
    rangesEffect .deferredCheck t rngs db = cleanEffect .deferredCheck (inAnyRange rngs) t db
  | [], db => (cleanEffect_deferredCheck_false t db).symm
  | rng :: rngs, db => by
      rw [rangesEffect, rangesEffect_deferredCheck t rngs, cleanEffect_deferredCheck_comp]
      rfl

/-- The single clean the spec compares `Clean` with: the statements of one `clean` of kind `t`
over the headers whose block number `P` selects, in their own transaction, then the vacuum. -/
def singleClean (act : KeyAction) (P : Nat → Bool) (t : DataType) (db : Db) (fs : List Bool) :
    Except CleanerError Unit × Db :=
  match transact .db act.commitCheck (cleanWhere act true P t) db fs with
  | (.error e, db') => (.error e, db')
  | (.ok fs', db') => (vacuumAnalyze t fs', db')

section Single

variable (act : KeyAction) (P : Nat → Bool) {t : DataType} (db : Db)

theorem singleClean_nil (ht : t.recognized = true) :
    singleClean act P t db [] = if act.commitCheck db (cleanEffect act P t db)
      then (.ok (), cleanEffect act P t db) else (.error .db, db) := by
  unfold singleClean
  rw [transact_nil (faultFree_cleanWhere ht rfl P)]
  cases act.commitCheck db (cleanEffect act P t db) <;> simp [vacuumAnalyze_nil ht]

theorem singleClean_unrecognized_nil (ht : t.recognized = false) :
    singleClean act P t db [] = (.error (.unrecognizedType t), db) := by
  simp [singleClean, transact, cleanWhere_unrecognized ht]

end Single

section Deferred

variable (rngs : List Range) (t : DataType) (db : Db)

theorem Clean_ok_state {act : KeyAction} {fs : List Bool}
    (h : (Clean act rngs t db fs).1 = .ok ()) :
    (Clean act rngs t db fs).2 = rangesEffect act t rngs db := by
  rcases Clean_cases act rngs t db fs with ⟨e, he⟩ | ⟨-, -, he⟩
  · simp [he] at h
  · rw [he]

/-- **What a successful `Clean` removes from `eth`.** Under a non-cascading blob reference, it
removes exactly the rows of the scope of its kind over the headers in some range, and leaves
every other row as it was. -/
theorem Clean_removes_scope (fs : List Bool) (h : (Clean .deferredCheck rngs t db fs).1 = .ok ()) :
    (Clean .deferredCheck rngs t db fs).2.eth = db.eth.withoutScope t (inAnyRange rngs) := by
  rw [Clean_ok_state rngs t db h, rangesEffect_deferredCheck, cleanEffect_deferredCheck]

theorem forkDb_Clean_removes_scope :
    (Clean .deferredCheck [(10, 11)] .transactions forkDb []).1 = .ok () ∧
      (Clean .deferredCheck [(10, 11)] .transactions forkDb []).2.eth =
        forkDb.eth.withoutScope .transactions (inAnyRange [(10, 11)]) :=
  ⟨rfl, Clean_removes_scope [(10, 11)] .transactions forkDb [] rfl⟩

/-- Under a cascading blob reference the same `Clean` of block 10's transactions also removes
the transaction of block 11, which shares its blob, and that transaction's receipt. -/
theorem forkDb_Clean_cascade_beyond_scope :
    (Clean .cascade [(10, 10)] .transactions forkDb []).1 = .ok () ∧
      (Clean .cascade [(10, 10)] .transactions forkDb []).2.eth ≠
        forkDb.eth.withoutScope .transactions (inAnyRange [(10, 10)]) :=
  ⟨rfl, by decide⟩

/-- **No orphaned blob.** Under a non-cascading blob reference, after a successful `Clean` every
blob that some row referenced before, and that no remaining row references, is gone. -/
theorem Clean_no_orphans (fs : List Bool) (h : (Clean .deferredCheck rngs t db fs).1 = .ok ())
    (k : MhKey) (hk : k ∈ db.eth.rowKeys)
    (hgone : k ∉ (Clean .deferredCheck rngs t db fs).2.eth.rowKeys) :
    k ∉ (Clean .deferredCheck rngs t db fs).2.blocks := by
  rw [Clean_ok_state rngs t db h, rangesEffect_deferredCheck, cleanEffect_deferredCheck]
    at hgone ⊢
  simp [EthTables.scopeKey_of_mem_rowKeys hk hgone]

theorem forkDb_Clean_no_orphans :
    (Clean .deferredCheck [(10, 10), (11, 11)] .transactions forkDb []).1 = .ok () ∧
      3 ∈ forkDb.eth.rowKeys ∧
      3 ∉ (Clean .deferredCheck [(10, 10), (11, 11)] .transactions forkDb []).2.eth.rowKeys ∧
      3 ∉ (Clean .deferredCheck [(10, 10), (11, 11)] .transactions forkDb []).2.blocks :=
  ⟨rfl, by decide, by decide,
    Clean_no_orphans [(10, 10), (11, 11)] .transactions forkDb [] rfl 3 (by decide) (by decide)⟩

/-- Under a cascading blob reference the receipt of block 11 goes with its transaction, while no
statement deletes its blob `5`. -/
theorem forkDb_Clean_cascade_orphan :
    (Clean .cascade [(10, 10)] .transactions forkDb []).1 = .ok () ∧ 5 ∈ forkDb.eth.rowKeys ∧
      5 ∉ (Clean .cascade [(10, 10)] .transactions forkDb []).2.eth.rowKeys ∧
      5 ∈ (Clean .cascade [(10, 10)] .transactions forkDb []).2.blocks :=
  ⟨rfl, by decide, by decide, by decide⟩

/-- Under a cascading blob reference the order of the ranges matters: whichever block is
cleaned first takes the shared transaction of the other with it, and the other's receipt blob
stays behind. -/
example :
    (Clean .cascade [(10, 10), (11, 11)] .transactions forkDb []).2 ≠
      (Clean .cascade [(11, 11), (10, 10)] .transactions forkDb []).2 := by
  decide

theorem Clean_eq_singleClean (hv : ∀ rng ∈ rngs, rangeConverts rng = true) :
    Clean .deferredCheck rngs t db [] = singleClean .deferredCheck (inAnyRange rngs) t db [] := by
  cases ht : t.recognized
  · rw [Clean_unrecognized_nil _ _ _ _ ht, singleClean_unrecognized_nil _ _ _ ht]
  · rw [Clean_nil _ _ _ _ ht hv, singleClean_nil _ _ _ ht, rangesEffect_deferredCheck]

theorem Clean_again (fs : List Bool) :
    (Clean .deferredCheck rngs t (Clean .deferredCheck rngs t db []).2 fs).2 =
      (Clean .deferredCheck rngs t db []).2 := by
  rcases Clean_cases .deferredCheck rngs t (Clean .deferredCheck rngs t db []).2 fs with
    ⟨e, he⟩ | ⟨hc, -, he⟩
  · rw [he]
  · rw [he]
    cases ht : t.recognized
    · exact rangesEffect_unrecognized ht _ _
    · by_cases hv : ∀ rng ∈ rngs, rangeConverts rng = true
      · rw [Clean_nil _ _ _ _ ht hv] at hc ⊢
        simp only [rangesEffect_deferredCheck] at hc ⊢
        cases h0 : KeyAction.commitCheck .deferredCheck db
            (cleanEffect .deferredCheck (inAnyRange rngs) t db)
        · -- the first run rolled back, so the second one cannot commit either
          simp only [h0, Bool.false_eq_true, ↓reduceIte] at hc
        · simp only [↓reduceIte]
          exact cleanEffect_deferredCheck_idem _ _ _
      · -- a range that does not convert fails both runs
        obtain ⟨e, he'⟩ := Clean_unconverted .deferredCheck rngs t db ht (by simpa using hv) []
        obtain ⟨e', he''⟩ := Clean_unconverted .deferredCheck rngs t db ht (by simpa using hv) fs
        rw [he'] at he ⊢
        rw [← he, he'']

theorem forall_rangeConverts {rngs : List Range} :
    (∀ rng ∈ rngs, rangeConverts rng = true) ↔ ∀ rng ∈ rngs, rng.1 < 2 ^ 63 ∧ rng.2 < 2 ^ 63 :=
  forall₂_congr fun rng _ => rangeConverts_iff rng

/-- **`Clean` is one clean over the union of its ranges.** Under a non-cascading blob reference,
when every bound of the ranges is below `2^63`, without faults `Clean` returns and leaves what
one clean of the headers in some range returns and leaves. Every such list of ranges with the
same union (a permutation, repeated or overlapping ranges) therefore gives the same `Clean`, and
a `Clean` run again afterwards, whatever fails, leaves the database as the first one left it. -/
theorem Clean_union (hv : ∀ rng ∈ rngs, rng.1 < 2 ^ 63 ∧ rng.2 < 2 ^ 63) :
    Clean .deferredCheck rngs t db [] = singleClean .deferredCheck (inAnyRange rngs) t db [] ∧
      (∀ rngs' : List Range, (∀ rng ∈ rngs', rng.1 < 2 ^ 63 ∧ rng.2 < 2 ^ 63) →
        (∀ n, inAnyRange rngs' n = inAnyRange rngs n) →
        Clean .deferredCheck rngs' t db [] = Clean .deferredCheck rngs t db []) ∧
      ∀ fs, (Clean .deferredCheck rngs t (Clean .deferredCheck rngs t db []).2 fs).2 =
        (Clean .deferredCheck rngs t db []).2 := by
  refine ⟨Clean_eq_singleClean rngs t db (forall_rangeConverts.mpr hv), fun rngs' hv' h => ?_,
    Clean_again rngs t db⟩
  rw [Clean_eq_singleClean _ _ _ (forall_rangeConverts.mpr hv'),
    Clean_eq_singleClean _ _ _ (forall_rangeConverts.mpr hv), funext h]

theorem forkDb_Clean_union :
    (∀ rng ∈ [((10 : Nat), (11 : Nat))], rng.1 < 2 ^ 63 ∧ rng.2 < 2 ^ 63) ∧
      (Clean .deferredCheck [(10, 11)] .receipts forkDb [] =
          singleClean .deferredCheck (inAnyRange [(10, 11)]) .receipts forkDb [] ∧
        (∀ rngs' : List Range, (∀ rng ∈ rngs', rng.1 < 2 ^ 63 ∧ rng.2 < 2 ^ 63) →
          (∀ n, inAnyRange rngs' n = inAnyRange [(10, 11)] n) →
          Clean .deferredCheck rngs' .receipts forkDb [] =
            Clean .deferredCheck [(10, 11)] .receipts forkDb []) ∧
        ∀ fs, (Clean .deferredCheck [(10, 11)] .receipts
          (Clean .deferredCheck [(10, 11)] .receipts forkDb []).2 fs).2 =
            (Clean .deferredCheck [(10, 11)] .receipts forkDb []).2) :=
  ⟨by decide, Clean_union [(10, 11)] .receipts forkDb (by decide)⟩

/-- A bound of `2^63` fails `Clean` before any statement runs, while one clean over the union
of the ranges removes the receipts of both headers. -/
theorem forkDb_Clean_high_bound :
    Clean .deferredCheck [(0, 2 ^ 63)] .receipts forkDb [] = (.error .db, forkDb) ∧
      (singleClean .deferredCheck (inAnyRange [(0, 2 ^ 63)]) .receipts forkDb []).1 = .ok () ∧
      (singleClean .deferredCheck (inAnyRange [(0, 2 ^ 63)]) .receipts forkDb []).2 ≠ forkDb :=
  ⟨rfl, rfl, by decide⟩

/-- **When `Clean` commits.** Under a non-cascading blob reference, a `Clean` without faults
succeeds exactly when its kind is recognised, every bound of its ranges is below `2^63`, and no
blob of its scope is still referenced by a row outside the scope; otherwise it returns an error
and leaves the database as it was. -/
theorem Clean_succeeds_iff :
    ((Clean .deferredCheck rngs t db []).1 = .ok () ↔ t.recognized = true ∧
      (∀ rng ∈ rngs, rng.1 < 2 ^ 63 ∧ rng.2 < 2 ^ 63) ∧
      ∀ k ∈ (db.eth.withoutScope t (inAnyRange rngs)).rowKeys, k ∈ db.blocks →
        db.eth.scopeKey t (inAnyRange rngs) k = false) ∧
    ((Clean .deferredCheck rngs t db []).1 ≠ .ok () →
      ∃ e, Clean .deferredCheck rngs t db [] = (.error e, db)) := by
  refine ⟨?_, fun hne => ?_⟩
  · cases ht : t.recognized
    · simp [Clean_unrecognized_nil _ _ _ _ ht]
    · by_cases hv : ∀ rng ∈ rngs, rangeConverts rng = true
      · rw [Clean_nil _ _ _ _ ht hv, rangesEffect_deferredCheck, cleanEffect_deferredCheck]
        have hv' := forall_rangeConverts.mp hv
        split_ifs with hc <;> simp only [KeyAction.commitCheck, List.all_eq_true,
          decide_eq_true_eq, List.mem_filter, Bool.not_eq_true'] at hc
        · exact iff_of_true rfl ⟨rfl, hv', fun k hk hb => (hc k hk hb).2⟩
        · exact iff_of_false nofun fun ⟨_, _, h⟩ => hc fun k hk hb => ⟨hb, h k hk hb⟩
      · obtain ⟨e, he⟩ := Clean_unconverted .deferredCheck rngs t db ht (by simpa using hv) []
        rw [he]
        exact iff_of_false nofun fun ⟨_, h, _⟩ => hv (forall_rangeConverts.mpr h)
  · rcases Clean_cases .deferredCheck rngs t db [] with h | ⟨-, -, he⟩
    · exact h
    · -- only an unrecognised kind commits and then fails in the vacuum, having changed nothing
      cases ht : t.recognized
      · rw [he, rangesEffect_unrecognized ht, vacuumAnalyze_unrecognized ht]
        exact ⟨_, rfl⟩
      · rw [he, List.drop_nil, vacuumAnalyze_nil ht] at hne
        exact absurd rfl hne

example : (Clean .deferredCheck [(10, 10)] .transactions forkDb []).1 = .error .db := rfl

end Deferred

end Eth
end IpldEthIndexer
