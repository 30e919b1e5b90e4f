import Mathlib.Data.List.Nodup
import IpldEthIndexer.Eth.Ranges

/-!
# Cascading blob references without shared blobs

Under `KeyAction.cascade` deleting a blob deletes every row that references it, and everything
below those rows. When no two rows of the `eth` tables share an `mh_key` (content-addressed keys
of distinct contents), the rows a blob statement takes with it are exactly the rows it joined
through, so the statement acts as itself under the deferred check followed by the metadata
deletion of the same rows. Every kind deletes blobs from the leaves up, so no row that such a
deletion removes early is needed by a later join, and a whole clean ends where it ends under the
deferred check.

**Results.**
* `count_tableKeys`: with distinct keys, two tables share no key; hence
  `dropReferencing_uncleCids` and its five siblings: deleting the blobs of some rows of one table
  deletes exactly those rows.
* `runAll_interleave`: a metadata deletion after a blob statement changes nothing when the later
  blob statements do not read its rows and the last statement deletes them anyway.
* `cleanStorageIPLDs_cascade` and its five siblings: each blob statement under a cascading
  reference is the deferred one followed by the metadata deletion of the rows it joined through.
* `cleanEffect_cascade`: with distinct keys, one clean under a cascading reference leaves what it
  leaves under the deferred check.
* `Clean_cascade_eq`: with distinct keys, `Clean` returns and leaves the same under both
  references, whatever fails; so `Clean_removes_scope`, `Clean_no_orphans` and `Clean_union`
  describe the cascading schema on such databases too.
-/

namespace IpldEthIndexer
namespace Eth

open Postgres

/-! ## Deletions that select no row, and deletions that select the same rows -/

theorem filter_not_of_false {α : Type} {l : List α} {p : α → Bool}
    (h : ∀ x ∈ l, p x = false) :
    l.filter (fun x => !p x) = l :=
  List.filter_eq_self.mpr fun x hx => by simp [h x hx]

theorem childOf_of_false {α : Type} {parents : List α} {id : α → Nat} {p : α → Bool}
    (h : ∀ d ∈ parents, p d = false) : childOf parents id p = fun _ => false :=
  funext fun _ => anyRow_eq_false.mpr fun d hd _ => h d hd

theorem childOf_false {α : Type} {parents : List α} {id : α → Nat} :
    childOf parents id (fun _ => false) = fun _ => false :=
  childOf_of_false fun _ _ => rfl

namespace EthTables

variable {e : EthTables}

section Unchanged

variable {p : ChildCid → Bool}

theorem dropStorage_of_false (h : ∀ g ∈ e.storageCids, p g = false) : e.dropStorage p = e := by
  simp only [dropStorage, filter_not_of_false h]

theorem dropReceipts_of_false (h : ∀ r ∈ e.receiptCids, p r = false) :
    e.dropReceipts p = e := by
  simp only [dropReceipts, filter_not_of_false h]

theorem dropUncles_of_false (h : ∀ u ∈ e.uncleCids, p u = false) : e.dropUncles p = e := by
  simp only [dropUncles, filter_not_of_false h]

theorem dropState_of_false (h : ∀ s ∈ e.stateCids, p s = false) : e.dropState p = e := by
  simp only [dropState, dropStorage, childOf_of_false h, filter_not_of_false h, Bool.not_false,
    List.filter_true]

theorem dropTransactions_of_false (h : ∀ x ∈ e.transactionCids, p x = false) :
    e.dropTransactions p = e := by
  simp only [dropTransactions, dropReceipts, childOf_of_false h, filter_not_of_false h,
    Bool.not_false, List.filter_true]

theorem dropHeaders_of_false {p : HeaderCid → Bool} (h : ∀ x ∈ e.headerCids, p x = false) :
    e.dropHeaders p = e := by
  simp only [dropHeaders, dropState, dropTransactions, dropUncles, dropReceipts, dropStorage,
    childOf_of_false h, childOf_false, filter_not_of_false h, Bool.not_false, List.filter_true]

end Unchanged

section Congr

variable {p q : ChildCid → Bool}

theorem dropStorage_congr (h : ∀ g ∈ e.storageCids, p g = q g) :
    e.dropStorage p = e.dropStorage q := by
  rw [dropStorage, dropStorage, List.filter_congr fun g hg => by rw [h g hg]]

theorem dropReceipts_congr (h : ∀ r ∈ e.receiptCids, p r = q r) :
    e.dropReceipts p = e.dropReceipts q := by
  rw [dropReceipts, dropReceipts, List.filter_congr fun g hg => by rw [h g hg]]

theorem dropUncles_congr (h : ∀ u ∈ e.uncleCids, p u = q u) :
    e.dropUncles p = e.dropUncles q := by
  rw [dropUncles, dropUncles, List.filter_congr fun g hg => by rw [h g hg]]

theorem dropState_congr (h : ∀ s ∈ e.stateCids, p s = q s) : e.dropState p = e.dropState q := by
  have hc : childOf e.stateCids ChildCid.id p = childOf e.stateCids ChildCid.id q :=
    funext fun _ => anyRow_congr fun d hd _ => h d hd
  rw [dropState, dropState, hc, List.filter_congr fun g hg => by rw [h g hg]]

theorem dropTransactions_congr (h : ∀ x ∈ e.transactionCids, p x = q x) :
    e.dropTransactions p = e.dropTransactions q := by
  have hc : childOf e.transactionCids ChildCid.id p = childOf e.transactionCids ChildCid.id q :=
    funext fun _ => anyRow_congr fun d hd _ => h d hd
  rw [dropTransactions, dropTransactions, hc, List.filter_congr fun g hg => by rw [h g hg]]

theorem dropHeaders_congr {p q : HeaderCid → Bool} (h : ∀ x ∈ e.headerCids, p x = q x) :
    e.dropHeaders p = e.dropHeaders q := by
  have hc : childOf e.headerCids HeaderCid.id p = childOf e.headerCids HeaderCid.id q :=
    funext fun _ => anyRow_congr fun d hd _ => h d hd
  have hf : e.headerCids.filter (fun x => !p x) = e.headerCids.filter (fun x => !q x) :=
    List.filter_congr fun g hg => by rw [h g hg]
  simp only [dropHeaders, hc, hf]

end Congr

/-! ## Distinct keys -/

/-- No key occurs twice among the rows of all six tables. -/
theorem count_rowKeys (hu : e.rowKeys.Nodup) (k : MhKey) :
    (e.headerCids.map HeaderCid.mhKey).count k + (e.uncleCids.map ChildCid.mhKey).count k +
      (e.transactionCids.map ChildCid.mhKey).count k +
      (e.receiptCids.map ChildCid.mhKey).count k + (e.stateCids.map ChildCid.mhKey).count k +
      (e.storageCids.map ChildCid.mhKey).count k ≤ 1 := by
  simpa only [rowKeys, List.count_append] using List.nodup_iff_count_le_one.mp hu k

/-- The `mh_key`s of the rows of one table. -/
def tableKeys (e : EthTables) : Table → List MhKey
  | .header => e.headerCids.map HeaderCid.mhKey
  | .uncle => e.uncleCids.map ChildCid.mhKey
  | .transaction => e.transactionCids.map ChildCid.mhKey
  | .receipt => e.receiptCids.map ChildCid.mhKey
  | .state => e.stateCids.map ChildCid.mhKey
  | .storage => e.storageCids.map ChildCid.mhKey

/-- **Two tables share no key.** With distinct keys, a key occurs at most once in two different
tables together. -/
theorem count_tableKeys (hu : e.rowKeys.Nodup) (a b : Table) (hab : a ≠ b) (k : MhKey) :
    (e.tableKeys a).count k + (e.tableKeys b).count k ≤ 1 := by
  have := count_rowKeys hu k
  cases a <;> cases b <;> first | exact absurd rfl hab | (simp only [tableKeys]; omega)

theorem nodup_tableKeys (hu : e.rowKeys.Nodup) (a : Table) : (e.tableKeys a).Nodup := by
  have := count_rowKeys hu
  refine List.nodup_iff_count_le_one.mpr fun k => ?_
  have := this k
  cases a <;> simp only [tableKeys] <;> omega

end EthTables

section Keys

variable {α β : Type} {rows : List α} {mk : α → MhKey} {S : α → Bool}

theorem keysOf_self (hn : (rows.map mk).Nodup) {x : α} (hx : x ∈ rows) :
    keysOf rows mk S (mk x) = S x := by
  rw [Bool.eq_iff_iff, keysOf, anyRow_eq_true]
  exact ⟨fun ⟨d, hd, hk, hs⟩ => List.inj_on_of_nodup_map hn hd hx hk ▸ hs,
    fun hs => ⟨x, hx, rfl, hs⟩⟩

/-- The blobs of rows of one table are referenced by no row of a table whose keys it shares
none of. -/
theorem keysOf_other (others : List β) (mk' : β → MhKey)
    (h : ∀ k, (rows.map mk).count k + (others.map mk').count k ≤ 1) :
    ∀ y ∈ others, keysOf rows mk S (mk' y) = false := fun y hy =>
  anyRow_eq_false.mpr fun d hd hk => by
    have h₁ := List.count_pos_iff.mpr (List.mem_map_of_mem mk hd)
    have h₂ := List.count_pos_iff.mpr (List.mem_map_of_mem mk' hy)
    have := h (mk' y)
    rw [hk] at h₁
    omega

end Keys

namespace EthTables

variable {e : EthTables} (hu : e.rowKeys.Nodup) (S : ChildCid → Bool)
include hu

/-! Each deletion of the blobs of one table's rows leaves the other tables' rows alone, since
they share no key with that table (`count_tableKeys`), and deletes exactly the rows it joined
through, since the keys of that table are distinct (`nodup_tableKeys`). -/

/-- With distinct keys, deleting the blobs of some uncles deletes exactly those uncles. -/
theorem dropReferencing_uncleCids :
    e.dropReferencing (keysOf e.uncleCids ChildCid.mhKey S) = e.dropUncles S := by
  rw [dropReferencing,
    dropStorage_of_false (keysOf_other _ _ (count_tableKeys hu .uncle .storage nofun)),
    dropState_of_false (keysOf_other _ _ (count_tableKeys hu .uncle .state nofun)),
    dropReceipts_of_false (keysOf_other _ _ (count_tableKeys hu .uncle .receipt nofun)),
    dropTransactions_of_false (keysOf_other _ _ (count_tableKeys hu .uncle .transaction nofun)),
    dropUncles_congr fun _ => keysOf_self (nodup_tableKeys hu .uncle),
    dropHeaders_of_false (e := e.dropUncles S)
      (keysOf_other _ _ (count_tableKeys hu .uncle .header nofun))]

theorem dropReferencing_transactionCids :
    e.dropReferencing (keysOf e.transactionCids ChildCid.mhKey S) = e.dropTransactions S := by
  rw [dropReferencing,
    dropStorage_of_false (keysOf_other _ _ (count_tableKeys hu .transaction .storage nofun)),
    dropState_of_false (keysOf_other _ _ (count_tableKeys hu .transaction .state nofun)),
    dropReceipts_of_false (keysOf_other _ _ (count_tableKeys hu .transaction .receipt nofun)),
    dropTransactions_congr fun _ => keysOf_self (nodup_tableKeys hu .transaction),
    dropUncles_of_false (e := e.dropTransactions S)
      (keysOf_other _ _ (count_tableKeys hu .transaction .uncle nofun)),
    dropHeaders_of_false (e := e.dropTransactions S)
      (keysOf_other _ _ (count_tableKeys hu .transaction .header nofun))]

theorem dropReferencing_receiptCids :
    e.dropReferencing (keysOf e.receiptCids ChildCid.mhKey S) = e.dropReceipts S := by
  rw [dropReferencing,
    dropStorage_of_false (keysOf_other _ _ (count_tableKeys hu .receipt .storage nofun)),
    dropState_of_false (keysOf_other _ _ (count_tableKeys hu .receipt .state nofun)),
    dropReceipts_congr fun _ => keysOf_self (nodup_tableKeys hu .receipt),
    dropTransactions_of_false (e := e.dropReceipts S)
      (keysOf_other _ _ (count_tableKeys hu .receipt .transaction nofun)),
    dropUncles_of_false (e := e.dropReceipts S)
      (keysOf_other _ _ (count_tableKeys hu .receipt .uncle nofun)),
    dropHeaders_of_false (e := e.dropReceipts S)
      (keysOf_other _ _ (count_tableKeys hu .receipt .header nofun))]

theorem dropReferencing_stateCids :
    e.dropReferencing (keysOf e.stateCids ChildCid.mhKey S) = e.dropState S := by
  rw [dropReferencing,
    dropStorage_of_false (keysOf_other _ _ (count_tableKeys hu .state .storage nofun)),
    dropState_congr fun _ => keysOf_self (nodup_tableKeys hu .state),
    dropReceipts_of_false (e := e.dropState S)
      (keysOf_other _ _ (count_tableKeys hu .state .receipt nofun)),
    dropTransactions_of_false (e := e.dropState S)
      (keysOf_other _ _ (count_tableKeys hu .state .transaction nofun)),
    dropUncles_of_false (e := e.dropState S)
      (keysOf_other _ _ (count_tableKeys hu .state .uncle nofun)),
    dropHeaders_of_false (e := e.dropState S)
      (keysOf_other _ _ (count_tableKeys hu .state .header nofun))]

theorem dropReferencing_storageCids :
    e.dropReferencing (keysOf e.storageCids ChildCid.mhKey S) = e.dropStorage S := by
  rw [dropReferencing,
    dropStorage_congr fun _ => keysOf_self (nodup_tableKeys hu .storage),
    dropState_of_false (e := e.dropStorage S)
      (keysOf_other _ _ (count_tableKeys hu .storage .state nofun)),
    dropReceipts_of_false (e := e.dropStorage S)
      (keysOf_other _ _ (count_tableKeys hu .storage .receipt nofun)),
    dropTransactions_of_false (e := e.dropStorage S)
      (keysOf_other _ _ (count_tableKeys hu .storage .transaction nofun)),
    dropUncles_of_false (e := e.dropStorage S)
      (keysOf_other _ _ (count_tableKeys hu .storage .uncle nofun)),
    dropHeaders_of_false (e := e.dropStorage S)
      (keysOf_other _ _ (count_tableKeys hu .storage .header nofun))]

omit S in
theorem dropReferencing_headerCids (S : HeaderCid → Bool) :
    e.dropReferencing (keysOf e.headerCids HeaderCid.mhKey S) = e.dropHeaders S := by
  rw [dropReferencing,
    dropStorage_of_false (keysOf_other _ _ (count_tableKeys hu .header .storage nofun)),
    dropState_of_false (keysOf_other _ _ (count_tableKeys hu .header .state nofun)),
    dropReceipts_of_false (keysOf_other _ _ (count_tableKeys hu .header .receipt nofun)),
    dropTransactions_of_false (keysOf_other _ _ (count_tableKeys hu .header .transaction nofun)),
    dropUncles_of_false (keysOf_other _ _ (count_tableKeys hu .header .uncle nofun)),
    dropHeaders_congr fun _ => keysOf_self (nodup_tableKeys hu .header)]

end EthTables

/-! ## One clean -/

section Statements

variable (P : Nat → Bool) (db : Db) (hu : db.eth.rowKeys.Nodup)
include hu

/-- A blob statement under a cascading reference, on distinct keys, is the same statement under
the deferred check followed by the metadata deletion of the rows it joined through. -/
theorem cleanIPLDsOf_cascade {rows : EthTables → List ChildCid}
    {joined : EthTables → (Nat → Bool) → ChildCid → Bool}
    {drop : (ChildCid → Bool) → EthTables → EthTables}
    (hd : ∀ {e : EthTables}, e.rowKeys.Nodup → ∀ S,
      e.dropReferencing (keysOf (rows e) ChildCid.mhKey S) = drop S e) :
    cleanIPLDsOf .cascade P rows joined db =
      cleanMetaDataOf P drop joined (cleanIPLDsOf .deferredCheck P rows joined db) := by
  simp only [cleanIPLDsOf, cleanMetaDataOf, Db.deleteBlocks, hd hu]

theorem cleanStorageIPLDs_cascade : cleanStorageIPLDs .cascade P db =
    cleanStorageMetaData P (cleanStorageIPLDs .deferredCheck P db) :=
  cleanIPLDsOf_cascade P db hu EthTables.dropReferencing_storageCids

theorem cleanStateIPLDs_cascade : cleanStateIPLDs .cascade P db =
    cleanStateMetaData P (cleanStateIPLDs .deferredCheck P db) :=
  cleanIPLDsOf_cascade P db hu EthTables.dropReferencing_stateCids

theorem cleanReceiptIPLDs_cascade : cleanReceiptIPLDs .cascade P db =
    cleanReceiptMetaData P (cleanReceiptIPLDs .deferredCheck P db) :=
  cleanIPLDsOf_cascade P db hu EthTables.dropReferencing_receiptCids

theorem cleanTransactionIPLDs_cascade : cleanTransactionIPLDs .cascade P db =
    cleanTransactionMetaData P (cleanTransactionIPLDs .deferredCheck P db) :=
  cleanIPLDsOf_cascade P db hu EthTables.dropReferencing_transactionCids

theorem cleanUncleIPLDs_cascade : cleanUncleIPLDs .cascade P db =
    cleanUncleMetaData P (cleanUncleIPLDs .deferredCheck P db) :=
  cleanIPLDsOf_cascade P db hu EthTables.dropReferencing_uncleCids

theorem cleanHeaderIPLDs_cascade : cleanHeaderIPLDs .cascade P db =
    cleanHeaderMetaData P (cleanHeaderIPLDs .deferredCheck P db) := by
  simp only [cleanHeaderIPLDs, cleanHeaderMetaData, Db.deleteBlocks,
    EthTables.dropReferencing_headerCids hu]

end Statements

/-- Two lists of statements that agree on every database with distinct keys, the first of them
sound under a cascading reference, reach the same state from such a database. -/
theorem runAll_of_nodup {fs gs : List (Db → Db)}
    (h : List.Forall₂ (fun f g => ∀ db : Db, db.eth.rowKeys.Nodup → f db = g db) fs gs)
    (hs : ∀ f ∈ fs, Sound .cascade f) :
    ∀ db : Db, db.eth.rowKeys.Nodup → runAll fs db = runAll gs db := by
  induction h with
  | nil => exact fun _ _ => rfl
  | @cons f g fs gs hfg _ ih =>
      intro db hu
      have hf := hs f (List.mem_cons_self f fs)
      rw [runAll_cons, runAll_cons, ← hfg db hu,
        ih (fun f' hf' => hs f' (List.mem_cons_of_mem f hf')) _
          ((hf.shrunk db).rowKeys_sublist.nodup hu)]

/-- A cascading clean whose statements agree, on databases with distinct keys, with `gs` leaves
what `gs` leaves. -/
theorem cleanEffect_of_forall₂ (P : Nat → Bool) (t : DataType) {fs gs : List (Db → Db)}
    (hf : cleanStatements .cascade P t = some fs)
    (h : List.Forall₂ (fun f g => ∀ db : Db, db.eth.rowKeys.Nodup → f db = g db) fs gs)
    (db : Db) (hu : db.eth.rowKeys.Nodup) : cleanEffect .cascade P t db = runAll gs db := by
  simp only [cleanEffect, hf]
  exact runAll_of_nodup h (sound_cleanStatements .cascade P t hf) db hu

/-! ## Metadata deletions between blob statements -/

section Interleave

variable {σ : Type} (L : σ → σ)

/-- A map that every later statement commutes with, and that the last statement absorbs,
changes nothing when it runs first. -/
theorem runAll_absorb {M : σ → σ} (hL : ∀ d, L (M d) = L d) : ∀ {fs : List (σ → σ)},
    (∀ g ∈ fs, ∀ d, g (M d) = M (g d)) → ∀ d, runAll (fs ++ [L]) (M d) = runAll (fs ++ [L]) d
  | [], _, d => hL d
  | g :: _, hg, d => by
      rw [List.cons_append, runAll_cons, runAll_cons, hg g (List.mem_cons_self _ _) d]
      exact runAll_absorb hL (fun g' hg' => hg g' (List.mem_cons_of_mem g hg')) (g d)

/-- Statements `p.2`, each followed by a map `p.1`, and then `L`, reach what the statements
alone and then `L` reach, when every later statement commutes with each map and `L` absorbs
every map. -/
theorem runAll_interleave : ∀ {ps : List ((σ → σ) × (σ → σ))},
    ps.Pairwise (fun a b => ∀ d, b.2 (a.1 d) = a.1 (b.2 d)) → (∀ p ∈ ps, ∀ d, L (p.1 d) = L d) →
      ∀ d, runAll (ps.map (fun p => p.1 ∘ p.2) ++ [L]) d = runAll (ps.map Prod.snd ++ [L]) d
  | [], _, _, _ => rfl
  | p :: _, hp, hL, d => by
      obtain ⟨hc, hp⟩ := List.pairwise_cons.mp hp
      simp only [List.map_cons, List.cons_append, runAll_cons, Function.comp_apply]
      rw [runAll_interleave hp (fun q hq => hL q (List.mem_cons_of_mem p hq))]
      refine runAll_absorb L (hL p (List.mem_cons_self _ _)) (fun g hg => ?_) (p.2 d)
      obtain ⟨q, hq, rfl⟩ := List.mem_map.mp hg
      exact hc q hq

end Interleave

/-- The metadata deletion of a kind absorbs that of a kind whose tables are among its own. -/
theorem metaData_absorb (P : Nat → Bool) {t t' : DataType} {L M : Db → Db}
    (hL : ∀ d : Db, L d = { d with eth := d.eth.withoutScope t P })
    (hM : ∀ d : Db, M d = { d with eth := d.eth.withoutScope t' P })
    (hcov : ∀ tb, t'.covers tb = true → t.covers tb = true) (d : Db) : L (M d) = L d := by
  simp only [hL, hM, EthTables.withoutScope_absorb hcov]

/-- A cascading clean whose blob statements act, on distinct keys, as the deferred ones each
followed by a metadata deletion `p.1`, leaves what the deferred clean leaves when every later
deferred blob statement commutes with those deletions and the last statement absorbs them. -/
theorem cleanEffect_cascade_of (P : Nat → Bool) (t : DataType)
    (ps : List ((Db → Db) × (Db → Db))) (L : Db → Db) {fs : List (Db → Db)}
    (hfs : List.Forall₂ (fun f p => ∀ db : Db, db.eth.rowKeys.Nodup → f db = p.1 (p.2 db)) fs ps)
    (hf : cleanStatements .cascade P t = some (fs ++ [L]))
    (hd : cleanStatements .deferredCheck P t = some (ps.map Prod.snd ++ [L]))
    (hp : ps.Pairwise fun a b => ∀ d, b.2 (a.1 d) = a.1 (b.2 d))
    (hL : ∀ p ∈ ps, ∀ d, L (p.1 d) = L d) (db : Db) (hu : db.eth.rowKeys.Nodup) :
    cleanEffect .cascade P t db = cleanEffect .deferredCheck P t db := by
  have h₂ : List.Forall₂ (fun f g => ∀ db : Db, db.eth.rowKeys.Nodup → f db = g db) (fs ++ [L])
      (ps.map (fun p => p.1 ∘ p.2) ++ [L]) :=
    List.rel_append (List.forall₂_map_right_iff.mpr hfs) (.cons (fun _ _ => rfl) .nil)
  rw [cleanEffect_of_forall₂ P t hf h₂ db hu, runAll_interleave L hp hL db]
  simp only [cleanEffect, hd]

/-- **A cascading clean on distinct keys.** When no two rows share a blob, a clean under a
cascading blob reference leaves what it leaves under the deferred check: the scope of its kind
and the blobs of that scope are gone, and nothing else (`cleanEffect_deferredCheck`). Each blob
statement then also deletes the rows it joined through; the later blob statements of the kind
do not read those tables, and the last statement deletes the rows anyway. -/
theorem cleanEffect_cascade (P : Nat → Bool) (t : DataType) (db : Db)
    (hu : db.eth.rowKeys.Nodup) :
    cleanEffect .cascade P t db = cleanEffect .deferredCheck P t db := by
  have hS := cleanStorageIPLDs_cascade P
  have hSt := cleanStateIPLDs_cascade P
  have hR := cleanReceiptIPLDs_cascade P
  have hT := cleanTransactionIPLDs_cascade P
  have hU := cleanUncleIPLDs_cascade P
  have hH := cleanHeaderIPLDs_cascade P
  -- `Full` and `Headers` send the same statements
  have hF : ∀ t, cleanStatements .cascade P t = some (cleanFull .cascade P) →
      cleanStatements .deferredCheck P t = some (cleanFull .deferredCheck P) →
      cleanEffect .cascade P t db = cleanEffect .deferredCheck P t db := by
    intro t hf hd
    have hL := fun d => cleanHeaderMetaData_eq P d (t := .full) rfl
    refine cleanEffect_cascade_of P t [(cleanStorageMetaData P, cleanStorageIPLDs .deferredCheck P),
      (cleanStateMetaData P, cleanStateIPLDs .deferredCheck P),
      (cleanReceiptMetaData P, cleanReceiptIPLDs .deferredCheck P),
      (cleanTransactionMetaData P, cleanTransactionIPLDs .deferredCheck P),
      (cleanUncleMetaData P, cleanUncleIPLDs .deferredCheck P),
      (cleanHeaderMetaData P, cleanHeaderIPLDs .deferredCheck P)] (cleanHeaderMetaData P)
      (.cons hS <| .cons hSt <| .cons hR <| .cons hT <| .cons hU <| .cons hH .nil) hf hd ?_ ?_ db hu
    · -- the later blob statements do not read the rows each deletion removes
      simp only [List.pairwise_cons, List.forall_mem_cons, List.not_mem_nil, false_implies,
        implies_true, List.Pairwise.nil, and_true]
      and_intros <;> exact fun _ => rfl
    · simp only [List.forall_mem_cons]
      exact ⟨metaData_absorb P hL (cleanStorageMetaData_eq P) fun _ _ => rfl,
        metaData_absorb P hL (cleanStateMetaData_eq P) fun _ _ => rfl,
        metaData_absorb P hL (cleanReceiptMetaData_eq P) fun _ _ => rfl,
        metaData_absorb P hL (cleanTransactionMetaData_eq P) fun _ _ => rfl,
        metaData_absorb P hL (cleanUncleMetaData_eq P) fun _ _ => rfl,
        metaData_absorb P hL hL fun _ _ => rfl, nofun⟩
  cases t
  case full => exact hF _ rfl rfl
  case headers => exact hF _ rfl rfl
  case uncles =>
    refine cleanEffect_cascade_of P .uncles [(cleanUncleMetaData P, cleanUncleIPLDs .deferredCheck P)]
      (cleanUncleMetaData P) (.cons hU .nil) rfl rfl (by simp) ?_ db hu
    simp only [List.forall_mem_cons]
    exact ⟨metaData_absorb P (cleanUncleMetaData_eq P) (cleanUncleMetaData_eq P) fun _ h => h,
      nofun⟩
  case transactions =>
    refine cleanEffect_cascade_of P .transactions
      [(cleanReceiptMetaData P, cleanReceiptIPLDs .deferredCheck P),
        (cleanTransactionMetaData P, cleanTransactionIPLDs .deferredCheck P)]
      (cleanTransactionMetaData P) (.cons hR <| .cons hT .nil) rfl rfl
      (by simp only [List.pairwise_cons, List.forall_mem_cons]; and_intros <;> first
        | exact fun _ => rfl | simp) ?_ db hu
    have hL := cleanTransactionMetaData_eq P
    simp only [List.forall_mem_cons]
    exact ⟨metaData_absorb P hL (cleanReceiptMetaData_eq P) fun tb h => by
      cases tb <;> first | rfl | exact absurd h (by decide),
      metaData_absorb P hL hL fun _ h => h, nofun⟩
  case receipts =>
    refine cleanEffect_cascade_of P .receipts
      [(cleanReceiptMetaData P, cleanReceiptIPLDs .deferredCheck P)]
      (cleanReceiptMetaData P) (.cons hR .nil) rfl rfl (by simp) ?_ db hu
    simp only [List.forall_mem_cons]
    exact ⟨metaData_absorb P (cleanReceiptMetaData_eq P) (cleanReceiptMetaData_eq P) fun _ h => h,
      nofun⟩
  case state =>
    refine cleanEffect_cascade_of P .state
      [(cleanStorageMetaData P, cleanStorageIPLDs .deferredCheck P),
        (cleanStateMetaData P, cleanStateIPLDs .deferredCheck P)]
      (cleanStateMetaData P) (.cons hS <| .cons hSt .nil) rfl rfl
      (by simp only [List.pairwise_cons, List.forall_mem_cons]; and_intros <;> first
        | exact fun _ => rfl | simp) ?_ db hu
    have hL := cleanStateMetaData_eq P
    simp only [List.forall_mem_cons]
    exact ⟨metaData_absorb P hL (cleanStorageMetaData_eq P) fun tb h => by
      cases tb <;> first | rfl | exact absurd h (by decide),
      metaData_absorb P hL hL fun _ h => h, nofun⟩
  case storage =>
    refine cleanEffect_cascade_of P .storage
      [(cleanStorageMetaData P, cleanStorageIPLDs .deferredCheck P)]
      (cleanStorageMetaData P) (.cons hS .nil) rfl rfl (by simp) ?_ db hu
    simp only [List.forall_mem_cons]
    exact ⟨metaData_absorb P (cleanStorageMetaData_eq P) (cleanStorageMetaData_eq P) fun _ h => h,
      nofun⟩
  case unknown v => rfl

/-! ## Whole transactions -/

theorem cleanWhere_cascade (c : Bool) (P : Nat → Bool) (t : DataType) (tx : Tx Db)
    (hu : tx.db.eth.rowKeys.Nodup) :
    cleanWhere .cascade c P t tx = cleanWhere .deferredCheck c P t tx := by
  cases ht : t.recognized
  · rw [cleanWhere_unrecognized ht, cleanWhere_unrecognized ht]
  · cases c
    · rw [cleanWhere_unconverted ht, cleanWhere_unconverted ht]
    · rw [cleanWhere_true ht, cleanWhere_true ht, cleanEffect_cascade P t tx.db hu]

theorem cleanRanges_cascade (t : DataType) : ∀ (rngs : List Range) (tx : Tx Db),
    tx.db.eth.rowKeys.Nodup →
      cleanRanges .cascade t rngs tx = cleanRanges .deferredCheck t rngs tx
  | [], _, _ => rfl
  | rng :: rngs, tx, hu => by
      rw [cleanRanges, cleanRanges, clean, clean, cleanWhere_cascade _ _ _ tx hu]
      cases h : cleanWhere .deferredCheck (rangeConverts rng) (inRange rng) t tx with
      | error e => rfl
      | ok tx' =>
          -- the first range only removed rows, so the keys stay distinct
          have hd : tx'.db = cleanEffect .deferredCheck (inRange rng) t tx.db :=
            computes_cleanWhere _ _ tx tx' h
          have hu' : tx'.db.eth.rowKeys.Nodup :=
            hd ▸ ((sound_cleanEffect _ t).shrunk tx.db).rowKeys_sublist.nodup hu
          exact cleanRanges_cascade t rngs tx' hu'

/-- **`Clean` on distinct keys does not depend on the blob reference.** When no two rows of the
`eth` tables share an `mh_key`, `Clean` under a cascading blob reference returns and leaves what
it returns and leaves under the deferred check, whatever statements fail. -/
theorem Clean_cascade_eq (rngs : List Range) (t : DataType) (db : Db) (fs : List Bool)
    (hu : db.eth.rowKeys.Nodup) :
    Clean .cascade rngs t db fs = Clean .deferredCheck rngs t db fs := by
  have hb := cleanRanges_cascade t rngs ⟨db, fs.tail⟩ hu
  simp only [Clean, transact]
  rw [hb]
  cases h : cleanRanges .deferredCheck t rngs ⟨db, fs.tail⟩ with
  | error e => rfl
  | ok tx =>
      -- a sound cascading run would pass the deferred check as well
      have hc : KeyAction.commitCheck .deferredCheck db tx.db = true := by
        rw [computes_cleanRanges rngs _ tx (hb.trans h)]
        exact (sound_rangesEffect .cascade t rngs).commitCheck db
      simp only [hc]
      rfl

/-- `forkDb` with the transaction of block 11 under a blob `6` of its own. -/
def distinctDb : Db where
  blocks := [1, 2, 3, 4, 5, 6]
  eth := { forkDb.eth with transactionCids := [⟨1, 1, 3⟩, ⟨2, 2, 6⟩] }

theorem distinctDb_Clean_cascade_eq :
    distinctDb.eth.rowKeys.Nodup ∧
      Clean .cascade [(10, 10)] .transactions distinctDb [] =
        Clean .deferredCheck [(10, 10)] .transactions distinctDb [] :=
  ⟨by decide, Clean_cascade_eq [(10, 10)] .transactions distinctDb [] (by decide)⟩

end Eth
end IpldEthIndexer
