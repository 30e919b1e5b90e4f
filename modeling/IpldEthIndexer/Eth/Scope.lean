import IpldEthIndexer.Eth.Cleaner

/-!
# The scope of a clean

The spec lists, for each kind, what a clean over a set `H` of headers removes: for `Full` and
`Headers` the headers of `H` and everything below them, for `Uncles` the uncles of `H`, for
`Transactions` their transactions and those transactions' receipts, for `Receipts` those
receipts, for `State` their state nodes and those nodes' storage nodes, and for `Storage` those
storage nodes. `DataType.covers` records the tables of each kind and `withoutScope` removes the
rows of those tables that belong to a header of `H`.

**Refinement.** Every kind ends with a metadata statement that deletes the scope of the kind
in the state it finds (`cleanStatements_last`). When deleting a blob does not cascade to the
rows referencing it (`KeyAction.deferredCheck`), the blob statements before it leave the `eth`
tables alone and together delete the blobs of the scope, so one clean removes exactly its scope
from `eth` and the blobs of that scope from `public.blocks` (`cleanEffect_deferredCheck`).

**Results.**
* `dropStorage_ofStates` and its siblings: each metadata statement deletes the scope of the
  kind of its table.
* `cleanEffect_deferredCheck`: what one clean does, as the scope of its kind.
* `withoutScope_withoutScope`, `scopeKey_withoutScope`: removing the scope of `P`, then that of
  `Q` in what is left, removes the scope of `P ∨ Q`.
* `withoutScope_absorb`: removing the scope of a kind and then that of a kind covering its
  tables removes the scope of the larger kind.
-/

namespace IpldEthIndexer
namespace Eth

open Postgres

/-- The tables of the `eth` schema. -/
inductive Table
  | header | uncle | transaction | receipt | state | storage
deriving DecidableEq, Repr

/-- The tables a clean of kind `t` removes rows from, after the spec's table of kinds. -/
def DataType.covers : DataType → Table → Bool
  | .full, _ | .headers, _ => true
  | .uncles, .uncle => true
  | .transactions, .transaction | .transactions, .receipt => true
  | .receipts, .receipt => true
  | .state, .state | .state, .storage => true
  | .storage, .storage => true
  | _, _ => false

/-- A kind that removes headers removes everything below them. -/
theorem DataType.covers_of_header {t : DataType} (h : t.covers .header = true) (tb : Table) :
    t.covers tb = true := by
  cases t <;> simp_all [DataType.covers]

theorem DataType.covers_of_transaction {t : DataType} (h : t.covers .transaction = true) :
    t.covers .receipt = true := by
  cases t <;> simp_all [DataType.covers]

theorem DataType.covers_of_state {t : DataType} (h : t.covers .state = true) :
    t.covers .storage = true := by
  cases t <;> simp_all [DataType.covers]

namespace EthTables

/-- The `eth` tables without the scope of a clean of kind `t` over the headers whose block
numbers `P` selects: the rows of the covered tables that belong to such a header, directly or
through their transaction or state node. -/
def withoutScope (e : EthTables) (t : DataType) (P : Nat → Bool) : EthTables where
  headerCids := e.headerCids.filter fun h => !(t.covers .header && P h.blockNumber)
  uncleCids := e.uncleCids.filter fun u => !(t.covers .uncle && e.ofHeaders P u)
  transactionCids := e.transactionCids.filter fun x => !(t.covers .transaction && e.ofHeaders P x)
  receiptCids := e.receiptCids.filter fun r => !(t.covers .receipt && e.ofTransactions P r)
  stateCids := e.stateCids.filter fun s => !(t.covers .state && e.ofHeaders P s)
  storageCids := e.storageCids.filter fun g => !(t.covers .storage && e.ofStates P g)

section Projections

variable (e : EthTables) (t : DataType) (P : Nat → Bool)

@[simp] theorem withoutScope_headerCids : (e.withoutScope t P).headerCids =
    e.headerCids.filter fun h => !(t.covers .header && P h.blockNumber) := rfl
@[simp] theorem withoutScope_uncleCids : (e.withoutScope t P).uncleCids =
    e.uncleCids.filter fun u => !(t.covers .uncle && e.ofHeaders P u) := rfl
@[simp] theorem withoutScope_transactionCids : (e.withoutScope t P).transactionCids =
    e.transactionCids.filter fun x => !(t.covers .transaction && e.ofHeaders P x) := rfl
@[simp] theorem withoutScope_receiptCids : (e.withoutScope t P).receiptCids =
    e.receiptCids.filter fun r => !(t.covers .receipt && e.ofTransactions P r) := rfl
@[simp] theorem withoutScope_stateCids : (e.withoutScope t P).stateCids =
    e.stateCids.filter fun s => !(t.covers .state && e.ofHeaders P s) := rfl
@[simp] theorem withoutScope_storageCids : (e.withoutScope t P).storageCids =
    e.storageCids.filter fun g => !(t.covers .storage && e.ofStates P g) := rfl

end Projections

theorem withoutScope_unrecognized (e : EthTables) {t : DataType} (ht : t.recognized = false)
    (P : Nat → Bool) : e.withoutScope t P = e := by
  cases t <;> first | exact absurd ht (by decide) | ext1 <;> simp [DataType.covers]

/-! ### The metadata statements delete the scope of their kind -/

section MetaData

variable (e : EthTables) (P : Nat → Bool)

theorem dropStorage_ofStates : e.dropStorage (e.ofStates P) = e.withoutScope .storage P := by
  ext1 <;> simp [dropStorage, DataType.covers]

theorem dropState_ofHeaders : e.dropState (e.ofHeaders P) = e.withoutScope .state P := by
  ext1 <;> simp [dropState, dropStorage, DataType.covers, ofStates]

theorem dropReceipts_ofTransactions :
    e.dropReceipts (e.ofTransactions P) = e.withoutScope .receipts P := by
  ext1 <;> simp [dropReceipts, DataType.covers]

theorem dropTransactions_ofHeaders :
    e.dropTransactions (e.ofHeaders P) = e.withoutScope .transactions P := by
  ext1 <;> simp [dropTransactions, dropReceipts, DataType.covers, ofTransactions]

theorem dropUncles_ofHeaders : e.dropUncles (e.ofHeaders P) = e.withoutScope .uncles P := by
  ext1 <;> simp [dropUncles, DataType.covers]

theorem dropHeaders_blockNumber {t : DataType} (ht : t.covers .header = true) :
    e.dropHeaders (P ·.blockNumber) = e.withoutScope t P := by
  ext1 <;> simp [dropHeaders, dropUncles, dropTransactions, dropReceipts, dropState, dropStorage,
    DataType.covers_of_header ht, ofHeaders, ofTransactions, ofStates]

end MetaData

/-- Blob `k` is referenced by a row of that scope. -/
def scopeKey (e : EthTables) (t : DataType) (P : Nat → Bool) (k : MhKey) : Bool :=
  (t.covers .header && keysOf e.headerCids HeaderCid.mhKey (P ·.blockNumber) k) ||
  (t.covers .uncle && keysOf e.uncleCids ChildCid.mhKey (e.ofHeaders P) k) ||
  (t.covers .transaction && keysOf e.transactionCids ChildCid.mhKey (e.ofHeaders P) k) ||
  (t.covers .receipt && keysOf e.receiptCids ChildCid.mhKey (e.ofTransactions P) k) ||
  (t.covers .state && keysOf e.stateCids ChildCid.mhKey (e.ofHeaders P) k) ||
  (t.covers .storage && keysOf e.storageCids ChildCid.mhKey (e.ofStates P) k)

theorem scopeKey_unrecognized (e : EthTables) {t : DataType} (ht : t.recognized = false)
    (P : Nat → Bool) (k : MhKey) : e.scopeKey t P k = false := by
  cases t <;> first | exact absurd ht (by decide) | simp [scopeKey, DataType.covers]

end EthTables

/-! ## The statements of one clean -/

section Statements

variable (P : Nat → Bool) (db : Db)

theorem cleanStorageMetaData_eq :
    cleanStorageMetaData P db = { db with eth := db.eth.withoutScope .storage P } := by
  rw [← EthTables.dropStorage_ofStates]; rfl

theorem cleanStateMetaData_eq :
    cleanStateMetaData P db = { db with eth := db.eth.withoutScope .state P } := by
  rw [← EthTables.dropState_ofHeaders]; rfl

theorem cleanReceiptMetaData_eq :
    cleanReceiptMetaData P db = { db with eth := db.eth.withoutScope .receipts P } := by
  rw [← EthTables.dropReceipts_ofTransactions]; rfl

theorem cleanTransactionMetaData_eq :
    cleanTransactionMetaData P db = { db with eth := db.eth.withoutScope .transactions P } := by
  rw [← EthTables.dropTransactions_ofHeaders]; rfl

theorem cleanUncleMetaData_eq :
    cleanUncleMetaData P db = { db with eth := db.eth.withoutScope .uncles P } := by
  rw [← EthTables.dropUncles_ofHeaders]; rfl

theorem cleanHeaderMetaData_eq {t : DataType} (ht : t.covers .header = true) :
    cleanHeaderMetaData P db = { db with eth := db.eth.withoutScope t P } := by
  rw [← EthTables.dropHeaders_blockNumber db.eth P ht]; rfl

/-- Under a non-cascading reference a blob statement deletes blobs and nothing else. -/
theorem cleanIPLDsOf_deferredCheck (rows : EthTables → List ChildCid)
    (joined : EthTables → (Nat → Bool) → ChildCid → Bool) :
    cleanIPLDsOf .deferredCheck P rows joined db =
      { db with
        blocks := db.blocks.filter fun k =>
          !keysOf (rows db.eth) ChildCid.mhKey (joined db.eth P) k } := rfl

theorem cleanHeaderIPLDs_deferredCheck :
    cleanHeaderIPLDs .deferredCheck P db =
      { db with
        blocks := db.blocks.filter fun k =>
          !keysOf db.eth.headerCids HeaderCid.mhKey (P ·.blockNumber) k } := rfl

end Statements

/-- **The shape of every kind.** Its blob statements come first and its last statement deletes
the scope of the kind in the state it finds; under a non-cascading reference the blob
statements together delete the blobs of the scope and leave `eth` alone. -/
theorem cleanStatements_last (act : KeyAction) (P : Nat → Bool) {t : DataType}
    (ht : t.recognized = true) : ∃ pre last, cleanStatements act P t = some (pre ++ [last]) ∧
      (∀ db : Db, last db = { db with eth := db.eth.withoutScope t P }) ∧
      (act = .deferredCheck → ∀ db : Db, runAll pre db =
        { db with blocks := db.blocks.filter fun k => !db.eth.scopeKey t P k }) := by
  -- the blobs each kind deletes, one table after the other, are the blobs of its scope
  have hb : ∀ {t pre} (last : Db → Db),
      cleanStatements .deferredCheck P t = some (pre ++ [last]) →
      ∀ db : Db, runAll pre db =
        { db with blocks := db.blocks.filter fun k => !db.eth.scopeKey t P k } := by
    intro t pre last h db
    rw [← @List.dropLast_concat _ pre last]
    cases t <;> simp only [cleanStatements, cleanFull, Option.some.injEq, reduceCtorEq] at h <;>
      rw [← h] <;>
      simp [cleanStorageIPLDs, cleanStateIPLDs, cleanReceiptIPLDs, cleanTransactionIPLDs,
        cleanUncleIPLDs, cleanIPLDsOf_deferredCheck, cleanHeaderIPLDs_deferredCheck,
        List.filter_filter, EthTables.scopeKey, DataType.covers, Bool.and_assoc]
  cases t
  case full | headers =>
    exact ⟨[cleanStorageIPLDs act P, cleanStateIPLDs act P, cleanReceiptIPLDs act P,
      cleanTransactionIPLDs act P, cleanUncleIPLDs act P, cleanHeaderIPLDs act P],
      cleanHeaderMetaData P, rfl, fun db => cleanHeaderMetaData_eq P db rfl,
      fun h => by subst h; exact hb _ rfl⟩
  case uncles =>
    exact ⟨[cleanUncleIPLDs act P], cleanUncleMetaData P, rfl, cleanUncleMetaData_eq P,
      fun h => by subst h; exact hb _ rfl⟩
  case transactions =>
    exact ⟨[cleanReceiptIPLDs act P, cleanTransactionIPLDs act P], cleanTransactionMetaData P,
      rfl, cleanTransactionMetaData_eq P, fun h => by subst h; exact hb _ rfl⟩
  case receipts =>
    exact ⟨[cleanReceiptIPLDs act P], cleanReceiptMetaData P, rfl, cleanReceiptMetaData_eq P,
      fun h => by subst h; exact hb _ rfl⟩
  case state =>
    exact ⟨[cleanStorageIPLDs act P, cleanStateIPLDs act P], cleanStateMetaData P, rfl,
      cleanStateMetaData_eq P, fun h => by subst h; exact hb _ rfl⟩
  case storage =>
    exact ⟨[cleanStorageIPLDs act P], cleanStorageMetaData P, rfl, cleanStorageMetaData_eq P,
      fun h => by subst h; exact hb _ rfl⟩
  case unknown => exact absurd ht nofun

/-- **One clean under a non-cascading blob reference.** It removes from `eth` exactly the scope
of its kind, and from `public.blocks` every blob a row of that scope references. -/
theorem cleanEffect_deferredCheck (P : Nat → Bool) (t : DataType) (db : Db) :
    cleanEffect .deferredCheck P t db =
      ⟨db.blocks.filter fun k => !db.eth.scopeKey t P k, db.eth.withoutScope t P⟩ := by
  cases ht : t.recognized
  · rw [cleanEffect_unrecognized ht, db.eth.withoutScope_unrecognized ht,
      List.filter_eq_self.mpr fun k _ => by rw [db.eth.scopeKey_unrecognized ht]; rfl]
  · obtain ⟨pre, last, hst, hl, hb⟩ := cleanStatements_last .deferredCheck P ht
    simp only [cleanEffect, hst, runAll_append, runAll_cons, runAll_nil, hl, hb rfl]

/-! ## Two scopes, one after the other -/

section Survivors

variable {α : Type} {rows : List α} {c : Bool} {SP SQ SQ' SPQ : α → Bool}

/-- A table cleaned of the scope `SP` and then of `SQ'`, where `SQ'` agrees with `SQ` on the
rows `SP` left, is the table cleaned of the scope `SPQ = SP ∨ SQ`. -/
theorem filter_survivors (hor : ∀ x ∈ rows, SPQ x = (SP x || SQ x))
    (hs : ∀ x ∈ rows, c = true → SP x = false → SQ' x = SQ x) :
    (rows.filter fun x => !(c && SP x)).filter (fun x => !(c && SQ' x)) =
      rows.filter fun x => !(c && SPQ x) := by
  rw [List.filter_filter]
  refine List.filter_congr fun x hx => ?_
  rw [hor x hx]
  cases c
  · rfl
  · cases hp : SP x
    · simp [hs x hx rfl hp]
    · simp

/-- The same for the blobs of the second scope, when the first did not reference `k`. -/
theorem keysOf_survivors {mk : α → MhKey} {k : MhKey}
    (hor : ∀ x ∈ rows, SPQ x = (SP x || SQ x))
    (hk : (c && keysOf rows mk SP k) = false)
    (hs : ∀ x ∈ rows, c = true → SP x = false → SQ' x = SQ x) :
    (c && keysOf (rows.filter fun x => !(c && SP x)) mk SQ' k) = (c && keysOf rows mk SPQ k) := by
  cases c
  · rfl
  · simp only [Bool.true_and, keysOf] at hk ⊢
    rw [anyRow_filter]
    refine anyRow_congr fun x hx hkx => ?_
    have hp := anyRow_eq_false.mp hk x hx hkx
    rw [hor x hx, hp, hs x hx rfl hp]
    rfl

/-- A blob of the scope `SP` is a blob of the larger scope `SPQ`. -/
theorem keysOf_mono {mk : α → MhKey} {k : MhKey} (hor : ∀ x ∈ rows, SPQ x = (SP x || SQ x))
    (hk : (c && keysOf rows mk SP k) = true) : (c && keysOf rows mk SPQ k) = true := by
  simp only [Bool.and_eq_true, keysOf, anyRow_eq_true] at hk ⊢
  obtain ⟨hc, x, hx, hkx, hp⟩ := hk
  exact ⟨hc, x, hx, hkx, by rw [hor x hx, hp, Bool.true_or]⟩

/-- Two deletions one after the other keep the rows neither selects, when the second selects,
among the rows the first keeps, the rows it selects in the whole table. -/
theorem filter_survivors_of {c' : Bool} (hs : ∀ x ∈ rows, (c && SP x) = false → SQ' x = SQ x) :
    (rows.filter fun x => !(c && SP x)).filter (fun x => !(c' && SQ' x)) =
      rows.filter fun x => !(c && SP x) && !(c' && SQ x) := by
  rw [List.filter_filter]
  refine List.filter_congr fun x hx => ?_
  cases hp : (c && SP x)
  · rw [hs x hx hp, Bool.and_comm]
  · simp

/-- A deletion of rows that a later, larger deletion selects too leaves nothing behind it. -/
theorem filter_absorb {c' : Bool} (hc : c' = true → c = true)
    (hs : ∀ x ∈ rows, (c' && SP x) = false → SQ' x = SP x) :
    (rows.filter fun x => !(c' && SP x)).filter (fun x => !(c && SQ' x)) =
      rows.filter fun x => !(c && SP x) := by
  rw [filter_survivors_of hs]
  refine List.filter_congr fun x _ => ?_
  cases c' <;> cases c <;> cases SP x <;> simp_all

/-- A row with blob `k` survives a clean of a scope that references no such blob. -/
theorem mem_map_filter_of_keysOf {mk : α → MhKey} {k : MhKey} (hk : k ∈ rows.map mk)
    (hs : (c && keysOf rows mk SP k) = false) :
    k ∈ (rows.filter fun x => !(c && SP x)).map mk := by
  obtain ⟨x, hx, rfl⟩ := List.mem_map.mp hk
  refine List.mem_map_of_mem _ (List.mem_filter.mpr ⟨hx, ?_⟩)
  cases c
  · rfl
  · simp only [Bool.true_and, keysOf] at hs
    rw [anyRow_eq_false.mp hs x hx rfl]
    rfl

end Survivors

namespace EthTables

variable {e : EthTables} {t : DataType} {P Q : Nat → Bool}

theorem ofHeaders_or : e.ofHeaders (fun n => P n || Q n) =
    fun x => e.ofHeaders P x || e.ofHeaders Q x :=
  funext fun _ => anyRow_or

theorem ofTransactions_or : e.ofTransactions (fun n => P n || Q n) =
    fun x => e.ofTransactions P x || e.ofTransactions Q x := by
  funext x
  simp only [ofTransactions, childOf, ofHeaders_or, anyRow_or]

theorem ofStates_or : e.ofStates (fun n => P n || Q n) =
    fun x => e.ofStates P x || e.ofStates Q x := by
  funext x
  simp only [ofStates, childOf, ofHeaders_or, anyRow_or]

/-- A row whose header survived the first clean sees the same headers in the second. -/
theorem ofHeaders_withoutScope {x : ChildCid}
    (hx : t.covers .header = true → e.ofHeaders P x = false) :
    (e.withoutScope t P).ofHeaders Q x = e.ofHeaders Q x := by
  simp only [ofHeaders, childOf, withoutScope_headerCids, anyRow_filter]
  refine anyRow_congr fun d hd hid => ?_
  cases hc : t.covers .header
  · rfl
  · simp [anyRow_eq_false.mp (hx hc) d hd hid]

theorem ofTransactions_withoutScope {x : ChildCid}
    (hx : t.covers .transaction = true → e.ofTransactions P x = false) :
    (e.withoutScope t P).ofTransactions Q x = e.ofTransactions Q x := by
  simp only [ofTransactions, childOf, withoutScope_transactionCids, anyRow_filter]
  refine anyRow_congr fun d hd hid => ?_
  have hP : t.covers .transaction = true → e.ofHeaders P d = false :=
    fun hc => anyRow_eq_false.mp (hx hc) d hd hid
  rw [ofHeaders_withoutScope fun hh => hP (DataType.covers_of_header hh _)]
  cases hc : t.covers .transaction
  · rfl
  · simp [hP hc]

theorem ofStates_withoutScope {x : ChildCid}
    (hx : t.covers .state = true → e.ofStates P x = false) :
    (e.withoutScope t P).ofStates Q x = e.ofStates Q x := by
  simp only [ofStates, childOf, withoutScope_stateCids, anyRow_filter]
  refine anyRow_congr fun d hd hid => ?_
  have hP : t.covers .state = true → e.ofHeaders P d = false :=
    fun hc => anyRow_eq_false.mp (hx hc) d hd hid
  rw [ofHeaders_withoutScope fun hh => hP (DataType.covers_of_header hh _)]
  cases hc : t.covers .state
  · rfl
  · simp [hP hc]

/-- **Scopes compose.** Cleaning the scope of `P` and then, in what is left, the scope of `Q`
leaves what cleaning the scope of `P ∨ Q` leaves. -/
theorem withoutScope_withoutScope :
    (e.withoutScope t P).withoutScope t Q = e.withoutScope t (fun n => P n || Q n) := by
  ext1
  · exact filter_survivors (fun _ _ => rfl) fun _ _ _ _ => rfl
  · exact filter_survivors (fun _ _ => by rw [ofHeaders_or]) fun _ _ _ hp =>
      ofHeaders_withoutScope fun _ => hp
  · exact filter_survivors (fun _ _ => by rw [ofHeaders_or]) fun _ _ _ hp =>
      ofHeaders_withoutScope fun _ => hp
  · exact filter_survivors (fun _ _ => by rw [ofTransactions_or]) fun _ _ _ hp =>
      ofTransactions_withoutScope fun _ => hp
  · exact filter_survivors (fun _ _ => by rw [ofHeaders_or]) fun _ _ _ hp =>
      ofHeaders_withoutScope fun _ => hp
  · exact filter_survivors (fun _ _ => by rw [ofStates_or]) fun _ _ _ hp =>
      ofStates_withoutScope fun _ => hp

/-- A row of a table below the headers that survived a clean of kind `t` sees, in what is
left, the headers it saw before. -/
theorem ofHeaders_survivor (tb : Table) {x : ChildCid}
    (hx : (t.covers tb && e.ofHeaders P x) = false) :
    (e.withoutScope t P).ofHeaders Q x = e.ofHeaders Q x :=
  ofHeaders_withoutScope fun hh => by simpa [DataType.covers_of_header hh tb] using hx

theorem ofTransactions_survivor {x : ChildCid}
    (hx : (t.covers .receipt && e.ofTransactions P x) = false) :
    (e.withoutScope t P).ofTransactions Q x = e.ofTransactions Q x :=
  ofTransactions_withoutScope fun ht => by simpa [DataType.covers_of_transaction ht] using hx

theorem ofStates_survivor {x : ChildCid} (hx : (t.covers .storage && e.ofStates P x) = false) :
    (e.withoutScope t P).ofStates Q x = e.ofStates Q x :=
  ofStates_withoutScope fun hs => by simpa [DataType.covers_of_state hs] using hx

/-- **A larger scope absorbs a smaller one.** Removing the scope of a kind whose tables are among
those of `t`, and then the scope of `t` over the same headers, removes the scope of `t`. -/
theorem withoutScope_absorb {t' : DataType} (h : ∀ tb, t'.covers tb = true → t.covers tb = true) :
    (e.withoutScope t' P).withoutScope t P = e.withoutScope t P := by
  ext1
  · exact filter_absorb (h .header) fun _ _ _ => rfl
  · exact filter_absorb (h .uncle) fun _ _ => ofHeaders_survivor .uncle
  · exact filter_absorb (h .transaction) fun _ _ => ofHeaders_survivor .transaction
  · exact filter_absorb (h .receipt) fun _ _ => ofTransactions_survivor
  · exact filter_absorb (h .state) fun _ _ => ofHeaders_survivor .state
  · exact filter_absorb (h .storage) fun _ _ => ofStates_survivor

theorem scopeKey_withoutScope {k : MhKey} (hk : e.scopeKey t P k = false) :
    (e.withoutScope t P).scopeKey t Q k = e.scopeKey t (fun n => P n || Q n) k := by
  simp only [scopeKey, Bool.or_eq_false_iff] at hk
  obtain ⟨⟨⟨⟨⟨hh, hu⟩, hx⟩, hr⟩, hs⟩, hg⟩ := hk
  simp only [scopeKey, withoutScope_headerCids, withoutScope_uncleCids,
    withoutScope_transactionCids, withoutScope_receiptCids, withoutScope_stateCids,
    withoutScope_storageCids]
  rw [keysOf_survivors (fun _ _ => rfl) hh fun _ _ _ _ => rfl,
    keysOf_survivors (fun x _ => congrFun ofHeaders_or x) hu fun _ _ _ hp =>
      ofHeaders_withoutScope fun _ => hp,
    keysOf_survivors (fun x _ => congrFun ofHeaders_or x) hx fun _ _ _ hp =>
      ofHeaders_withoutScope fun _ => hp,
    keysOf_survivors (fun x _ => congrFun ofTransactions_or x) hr fun _ _ _ hp =>
      ofTransactions_withoutScope fun _ => hp,
    keysOf_survivors (fun x _ => congrFun ofHeaders_or x) hs fun _ _ _ hp =>
      ofHeaders_withoutScope fun _ => hp,
    keysOf_survivors (fun x _ => congrFun ofStates_or x) hg fun _ _ _ hp =>
      ofStates_withoutScope fun _ => hp]

theorem scopeKey_mono {k : MhKey} (hk : e.scopeKey t P k = true) :
    e.scopeKey t (fun n => P n || Q n) k = true := by
  simp only [scopeKey, Bool.or_eq_true] at hk ⊢
  rcases hk with ((((h | h) | h) | h) | h) | h
  · exact .inl (.inl (.inl (.inl (.inl (keysOf_mono (fun _ _ => rfl) h)))))
  · exact .inl (.inl (.inl (.inl (.inr (keysOf_mono (fun x _ => congrFun ofHeaders_or x) h)))))
  · exact .inl (.inl (.inl (.inr (keysOf_mono (fun x _ => congrFun ofHeaders_or x) h))))
  · exact .inl (.inl (.inr (keysOf_mono (fun x _ => congrFun ofTransactions_or x) h)))
  · exact .inl (.inr (keysOf_mono (fun x _ => congrFun ofHeaders_or x) h))
  · exact .inr (keysOf_mono (fun x _ => congrFun ofStates_or x) h)

/-- A blob that some row referenced, and that no row outside the scope references, is a blob
of the scope. -/
theorem scopeKey_of_mem_rowKeys {k : MhKey} (hk : k ∈ e.rowKeys)
    (hgone : k ∉ (e.withoutScope t P).rowKeys) : e.scopeKey t P k = true := by
  refine Bool.of_not_eq_false fun hs => hgone ?_
  simp only [scopeKey, Bool.or_eq_false_iff] at hs
  obtain ⟨⟨⟨⟨⟨hh, hu⟩, hx⟩, hr⟩, hs⟩, hg⟩ := hs
  simp only [rowKeys, List.mem_append, withoutScope_headerCids, withoutScope_uncleCids,
    withoutScope_transactionCids, withoutScope_receiptCids, withoutScope_stateCids,
    withoutScope_storageCids] at hk ⊢
  rcases hk with ((((hk | hk) | hk) | hk) | hk) | hk
  · exact .inl (.inl (.inl (.inl (.inl (mem_map_filter_of_keysOf hk hh)))))
  · exact .inl (.inl (.inl (.inl (.inr (mem_map_filter_of_keysOf hk hu)))))
  · exact .inl (.inl (.inl (.inr (mem_map_filter_of_keysOf hk hx))))
  · exact .inl (.inl (.inr (mem_map_filter_of_keysOf hk hr)))
  · exact .inl (.inr (mem_map_filter_of_keysOf hk hs))
  · exact .inr (mem_map_filter_of_keysOf hk hg)

theorem ofHeaders_false : e.ofHeaders (fun _ => false) = fun _ => false :=
  funext fun _ => anyRow_false

theorem ofTransactions_false : e.ofTransactions (fun _ => false) = fun _ => false := by
  funext x
  rw [ofTransactions, ofHeaders_false]
  exact anyRow_false

theorem ofStates_false : e.ofStates (fun _ => false) = fun _ => false := by
  funext x
  rw [ofStates, ofHeaders_false]
  exact anyRow_false

/-- The empty scope. -/
theorem withoutScope_false : e.withoutScope t (fun _ => false) = e := by
  ext1 <;> simp [ofHeaders_false, ofTransactions_false, ofStates_false]

theorem scopeKey_false (k : MhKey) : e.scopeKey t (fun _ => false) k = false := by
  simp [scopeKey, keysOf, ofHeaders_false, ofTransactions_false, ofStates_false]

end EthTables

/-- **Cleans compose.** Under a non-cascading blob reference, a clean of the headers `P`
selects followed by a clean of those `Q` selects is one clean of those `P ∨ Q` selects. -/
theorem cleanEffect_deferredCheck_comp (P Q : Nat → Bool) (t : DataType) (db : Db) :
    cleanEffect .deferredCheck Q t (cleanEffect .deferredCheck P t db) =
      cleanEffect .deferredCheck (fun n => P n || Q n) t db := by
  simp only [cleanEffect_deferredCheck, EthTables.withoutScope_withoutScope, Db.mk.injEq,
    and_true, List.filter_filter]
  refine List.filter_congr fun k _ => ?_
  cases hk : db.eth.scopeKey t P k
  · simp [EthTables.scopeKey_withoutScope hk]
  · simp [EthTables.scopeKey_mono hk]

theorem cleanEffect_deferredCheck_idem (P : Nat → Bool) (t : DataType) (db : Db) :
    cleanEffect .deferredCheck P t (cleanEffect .deferredCheck P t db) =
      cleanEffect .deferredCheck P t db := by
  simp only [cleanEffect_deferredCheck_comp, Bool.or_self]

theorem cleanEffect_deferredCheck_false (t : DataType) (db : Db) :
    cleanEffect .deferredCheck (fun _ => false) t db = db := by
  simp [cleanEffect_deferredCheck, EthTables.withoutScope_false, EthTables.scopeKey_false]

end Eth
end IpldEthIndexer
