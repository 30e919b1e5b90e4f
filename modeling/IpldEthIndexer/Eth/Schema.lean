import IpldEthIndexer.Postgres.Tx

/-!
# The eth schema and `public.blocks`

The cleaner deletes from the six tables of the `eth` schema and from the blob store
`public.blocks`. A row is kept with the columns the cleaner reads or writes: its `id`, the `id`
of its parent row, the `block_number` and `times_validated` of a header, and the `mh_key` of the
blob it references. A blob is kept by its key alone, since no statement reads `data`.

**Parent references.** `uncle_cids`, `transaction_cids` and `state_cids` reference
`header_cids` by `header_id`, `receipt_cids` references `transaction_cids` by `tx_id`, and
`storage_cids` references `state_cids` by `state_id`, all `ON DELETE CASCADE`: a full clean
deletes header rows only, and its test expects every other table to be empty afterwards.
Deleting the rows `p` selects from a table therefore also deletes every row whose parent is one
of them, and so on downwards (`dropHeaders`, `dropTransactions`, `dropState`).

**Blob references.** Every `mh_key` references `public.blocks (key)`. The migration that
declares the reference is not part of the source, and the cleaner's tests pass under both
actions a deletion of a referenced blob may have, which `KeyAction` names: `ON DELETE CASCADE`,
or a `NO ACTION` check deferred to commit. An immediate check is ruled out by the tests, since
the cleaner deletes a blob before the rows that reference it.

**Results.**
* `ParentsPresent.drop*`: every cascading deletion keeps each parent reference resolvable.
* `mem_rowKeys_dropReferencing`: after a cascading blob deletion no remaining row references a
  deleted blob.
-/

namespace IpldEthIndexer
namespace Eth

/-- The multihash key of a blob, `public.blocks.key`. -/
abbrev MhKey := Nat

/-- A row of `eth.header_cids`. -/
structure HeaderCid where
  id : Nat
  blockNumber : Nat
  mhKey : MhKey
  timesValidated : Nat
deriving DecidableEq, Repr

/-- A row of a table below `eth.header_cids`: `parentId` is its `header_id` in `uncle_cids`,
`transaction_cids` and `state_cids`, its `tx_id` in `receipt_cids` and its `state_id` in
`storage_cids`. -/
structure ChildCid where
  id : Nat
  parentId : Nat
  mhKey : MhKey
deriving DecidableEq, Repr

/-- The tables of the `eth` schema. -/
@[ext] structure EthTables where
  headerCids : List HeaderCid
  uncleCids : List ChildCid
  transactionCids : List ChildCid
  receiptCids : List ChildCid
  stateCids : List ChildCid
  storageCids : List ChildCid
deriving DecidableEq, Repr

/-- The database the cleaner works on: the keys of `public.blocks` and the `eth` schema. -/
structure Db where
  blocks : List MhKey
  eth : EthTables
deriving DecidableEq, Repr

section Joins

variable {α : Type}

/-- Some row of `rows` that `p` selects has `v` in column `col`. -/
def anyRow (rows : List α) (col : α → Nat) (p : α → Bool) (v : Nat) : Bool :=
  rows.any fun b => v == col b && p b

/-- `c` is a child of a row of `parents` that `p` selects: `c.parent_id = d.id AND p d`. -/
def childOf (parents : List α) (id : α → Nat) (p : α → Bool) (c : ChildCid) : Bool :=
  anyRow parents id p c.parentId

/-- A row of `rows` that `p` selects references blob `k`: `A.key = B.mh_key AND p B`. -/
def keysOf (rows : List α) (mhKey : α → MhKey) (p : α → Bool) (k : MhKey) : Bool :=
  anyRow rows mhKey p k

/-- `c` has a row of `parents` as its parent. -/
def HasParent (parents : List α) (id : α → Nat) (c : ChildCid) : Prop :=
  ∃ d ∈ parents, id d = c.parentId

instance (parents : List α) (id : α → Nat) (c : ChildCid) :
    Decidable (HasParent parents id c) :=
  inferInstanceAs (Decidable (∃ d ∈ parents, id d = c.parentId))

section AnyRow

variable {rows : List α} {col : α → Nat} {p q : α → Bool} {v : Nat}

theorem anyRow_eq_true :
    anyRow rows col p v = true ↔ ∃ d ∈ rows, col d = v ∧ p d = true := by
  simp only [anyRow, List.any_eq_true, Bool.and_eq_true, beq_iff_eq]
  exact exists_congr fun d => and_congr_right fun _ => and_congr_left fun _ => eq_comm

theorem anyRow_filter (f : α → Bool) :
    anyRow (rows.filter f) col p v = anyRow rows col (fun d => f d && p d) v := by
  simp only [anyRow, List.any_filter, Bool.and_left_comm]

theorem anyRow_or :
    anyRow rows col (fun d => p d || q d) v = (anyRow rows col p v || anyRow rows col q v) := by
  induction rows with
  | nil => rfl
  | cons d rows ih =>
      simp only [anyRow, List.any_cons] at ih ⊢
      rw [ih, Bool.and_or_distrib_left]
      simp only [Bool.or_assoc, Bool.or_left_comm]

theorem anyRow_congr (h : ∀ d ∈ rows, col d = v → p d = q d) :
    anyRow rows col p v = anyRow rows col q v := by
  rw [Bool.eq_iff_iff, anyRow_eq_true, anyRow_eq_true]
  exact ⟨fun ⟨d, hd, hc, hp⟩ => ⟨d, hd, hc, h d hd hc ▸ hp⟩,
    fun ⟨d, hd, hc, hq⟩ => ⟨d, hd, hc, (h d hd hc).symm ▸ hq⟩⟩

end AnyRow

theorem anyRow_eq_false {rows : List α} {col : α → Nat} {p : α → Bool} {v : Nat} :
    anyRow rows col p v = false ↔ ∀ d ∈ rows, col d = v → p d = false := by
  simp only [anyRow, List.any_eq_false, Bool.and_eq_true, beq_iff_eq, not_and, Bool.not_eq_true]
  exact forall₂_congr fun d _ => by rw [eq_comm]

@[simp] theorem anyRow_false : anyRow rows col (fun _ => false) v = false :=
  anyRow_eq_false.mpr fun _ _ _ => rfl

theorem childOf_eq_false {parents : List α} {id : α → Nat} {p : α → Bool} {c : ChildCid} :
    childOf parents id p c = false ↔ ∀ d ∈ parents, id d = c.parentId → p d = false :=
  anyRow_eq_false

/-- A parent the deletion did not select survives it. -/
theorem HasParent.filter {parents : List α} {id : α → Nat} {p : α → Bool} {c : ChildCid}
    (h : HasParent parents id c) (hc : childOf parents id p c = false) :
    HasParent (parents.filter fun d => !p d) id c := by
  obtain ⟨d, hd, hid⟩ := h
  exact ⟨d, List.mem_filter.mpr ⟨hd, by simp [childOf_eq_false.mp hc d hd hid]⟩, hid⟩

end Joins

namespace EthTables

/-- `DELETE FROM eth.storage_cids` of the rows `p` selects. -/
def dropStorage (p : ChildCid → Bool) (e : EthTables) : EthTables :=
  { e with storageCids := e.storageCids.filter fun g => !p g }

/-- `DELETE FROM eth.receipt_cids` of the rows `p` selects. -/
def dropReceipts (p : ChildCid → Bool) (e : EthTables) : EthTables :=
  { e with receiptCids := e.receiptCids.filter fun r => !p r }

/-- `DELETE FROM eth.uncle_cids` of the rows `p` selects. -/
def dropUncles (p : ChildCid → Bool) (e : EthTables) : EthTables :=
  { e with uncleCids := e.uncleCids.filter fun u => !p u }

/-- `DELETE FROM eth.state_cids` of the rows `p` selects; the cascade on
`storage_cids.state_id` deletes their storage rows. -/
def dropState (p : ChildCid → Bool) (e : EthTables) : EthTables :=
  { e with stateCids := e.stateCids.filter fun s => !p s }.dropStorage
    (childOf e.stateCids ChildCid.id p)

/-- `DELETE FROM eth.transaction_cids` of the rows `p` selects; the cascade on
`receipt_cids.tx_id` deletes their receipts. -/
def dropTransactions (p : ChildCid → Bool) (e : EthTables) : EthTables :=
  { e with transactionCids := e.transactionCids.filter fun t => !p t }.dropReceipts
    (childOf e.transactionCids ChildCid.id p)

/-- `DELETE FROM eth.header_cids` of the rows `p` selects; the cascades on `header_id` delete
their uncles, transactions and state nodes, and those delete further down. -/
def dropHeaders (p : HeaderCid → Bool) (e : EthTables) : EthTables :=
  let gone := childOf e.headerCids HeaderCid.id p
  (({ e with headerCids := e.headerCids.filter fun h => !p h }.dropUncles gone).dropTransactions
    gone).dropState gone

/-- Deleting the blobs `K` under `ON DELETE CASCADE`: every row referencing one of them goes,
with everything below it. -/
def dropReferencing (K : MhKey → Bool) (e : EthTables) : EthTables :=
  (((((e.dropStorage (K ·.mhKey)).dropState (K ·.mhKey)).dropReceipts (K ·.mhKey)).dropTransactions
    (K ·.mhKey)).dropUncles (K ·.mhKey)).dropHeaders (K ·.mhKey)

/-- `C.header_id = D.id AND D.block_number BETWEEN $1 AND $2`, with the range as `P`: the row
belongs to a header `P` selects. -/
def ofHeaders (e : EthTables) (P : Nat → Bool) : ChildCid → Bool :=
  childOf e.headerCids HeaderCid.id (P ·.blockNumber)

/-- The row belongs to a transaction of a header `P` selects (`B.tx_id = C.id AND ...`). -/
def ofTransactions (e : EthTables) (P : Nat → Bool) : ChildCid → Bool :=
  childOf e.transactionCids ChildCid.id (e.ofHeaders P)

/-- The row belongs to a state node of a header `P` selects (`B.state_id = C.id AND ...`). -/
def ofStates (e : EthTables) (P : Nat → Bool) : ChildCid → Bool :=
  childOf e.stateCids ChildCid.id (e.ofHeaders P)

/-- The `mh_key` of every row, table by table. -/
def rowKeys (e : EthTables) : List MhKey :=
  e.headerCids.map (·.mhKey) ++ e.uncleCids.map (·.mhKey) ++ e.transactionCids.map (·.mhKey) ++
    e.receiptCids.map (·.mhKey) ++ e.stateCids.map (·.mhKey) ++ e.storageCids.map (·.mhKey)

/-- Every `header_id`, `tx_id` and `state_id` names an existing row. -/
def ParentsPresent (e : EthTables) : Prop :=
  (∀ c ∈ e.uncleCids, HasParent e.headerCids HeaderCid.id c) ∧
  (∀ c ∈ e.transactionCids, HasParent e.headerCids HeaderCid.id c) ∧
  (∀ c ∈ e.stateCids, HasParent e.headerCids HeaderCid.id c) ∧
  (∀ c ∈ e.receiptCids, HasParent e.transactionCids ChildCid.id c) ∧
  (∀ c ∈ e.storageCids, HasParent e.stateCids ChildCid.id c)

instance (e : EthTables) : Decidable e.ParentsPresent :=
  inferInstanceAs (Decidable (_ ∧ _ ∧ _ ∧ _ ∧ _))

/-- Every table of `e'` is a sublist of the same table of `e`: `e'` only lost rows. -/
def Shrunk (e' e : EthTables) : Prop :=
  e'.headerCids.Sublist e.headerCids ∧ e'.uncleCids.Sublist e.uncleCids ∧
    e'.transactionCids.Sublist e.transactionCids ∧ e'.receiptCids.Sublist e.receiptCids ∧
    e'.stateCids.Sublist e.stateCids ∧ e'.storageCids.Sublist e.storageCids

theorem Shrunk.refl (e : EthTables) : Shrunk e e := by
  simp [Shrunk]

theorem Shrunk.trans {e₁ e₂ e₃ : EthTables} (h₁ : Shrunk e₁ e₂) (h₂ : Shrunk e₂ e₃) :
    Shrunk e₁ e₃ :=
  ⟨h₁.1.trans h₂.1, h₁.2.1.trans h₂.2.1, h₁.2.2.1.trans h₂.2.2.1, h₁.2.2.2.1.trans h₂.2.2.2.1,
    h₁.2.2.2.2.1.trans h₂.2.2.2.2.1, h₁.2.2.2.2.2.trans h₂.2.2.2.2.2⟩

theorem Shrunk.rowKeys_sublist {e' e : EthTables} (h : Shrunk e' e) :
    e'.rowKeys.Sublist e.rowKeys := by
  obtain ⟨h₁, h₂, h₃, h₄, h₅, h₆⟩ := h
  exact (((((h₁.map _).append (h₂.map _)).append (h₃.map _)).append (h₄.map _)).append
    (h₅.map _)).append (h₆.map _)

theorem Shrunk.rowKeys {e' e : EthTables} (h : Shrunk e' e) {k : MhKey}
    (hk : k ∈ e'.rowKeys) : k ∈ e.rowKeys :=
  h.rowKeys_sublist.subset hk

section Drops

variable (e : EthTables)

theorem shrunk_dropStorage (p : ChildCid → Bool) : Shrunk (e.dropStorage p) e := by
  simp [Shrunk, dropStorage, List.filter_sublist]

theorem shrunk_dropReceipts (p : ChildCid → Bool) : Shrunk (e.dropReceipts p) e := by
  simp [Shrunk, dropReceipts, List.filter_sublist]

theorem shrunk_dropUncles (p : ChildCid → Bool) : Shrunk (e.dropUncles p) e := by
  simp [Shrunk, dropUncles, List.filter_sublist]

theorem shrunk_dropState (p : ChildCid → Bool) : Shrunk (e.dropState p) e := by
  simp [Shrunk, dropState, dropStorage, List.filter_sublist]

theorem shrunk_dropTransactions (p : ChildCid → Bool) : Shrunk (e.dropTransactions p) e := by
  simp [Shrunk, dropTransactions, dropReceipts, List.filter_sublist]

theorem shrunk_dropHeaders (p : HeaderCid → Bool) : Shrunk (e.dropHeaders p) e :=
  ((((shrunk_dropState _ _).trans (shrunk_dropTransactions _ _)).trans
    (shrunk_dropUncles _ _)).trans (by simp [Shrunk, List.filter_sublist]))

theorem shrunk_dropReferencing (K : MhKey → Bool) : Shrunk (e.dropReferencing K) e :=
  (shrunk_dropHeaders _ _).trans <| (shrunk_dropUncles _ _).trans <|
    (shrunk_dropTransactions _ _).trans <| (shrunk_dropReceipts _ _).trans <|
      (shrunk_dropState _ _).trans (shrunk_dropStorage _ _)

end Drops

section Parents

variable {e : EthTables}

theorem ParentsPresent.dropStorage (h : e.ParentsPresent) (p : ChildCid → Bool) :
    (e.dropStorage p).ParentsPresent := by
  obtain ⟨h₁, h₂, h₃, h₄, h₅⟩ := h
  exact ⟨h₁, h₂, h₃, h₄, fun c hc => h₅ c (List.mem_filter.mp hc).1⟩

theorem ParentsPresent.dropReceipts (h : e.ParentsPresent) (p : ChildCid → Bool) :
    (e.dropReceipts p).ParentsPresent := by
  obtain ⟨h₁, h₂, h₃, h₄, h₅⟩ := h
  exact ⟨h₁, h₂, h₃, fun c hc => h₄ c (List.mem_filter.mp hc).1, h₅⟩

theorem ParentsPresent.dropUncles (h : e.ParentsPresent) (p : ChildCid → Bool) :
    (e.dropUncles p).ParentsPresent := by
  obtain ⟨h₁, h₂, h₃, h₄, h₅⟩ := h
  exact ⟨fun c hc => h₁ c (List.mem_filter.mp hc).1, h₂, h₃, h₄, h₅⟩

theorem ParentsPresent.dropState (h : e.ParentsPresent) (p : ChildCid → Bool) :
    (e.dropState p).ParentsPresent := by
  obtain ⟨h₁, h₂, h₃, h₄, h₅⟩ := h
  refine ⟨h₁, h₂, fun c hc => h₃ c (List.mem_filter.mp hc).1, h₄, fun c hc => ?_⟩
  obtain ⟨hc, hg⟩ := List.mem_filter.mp hc
  exact (h₅ c hc).filter (Bool.not_eq_true' _ ▸ hg)

theorem ParentsPresent.dropTransactions (h : e.ParentsPresent) (p : ChildCid → Bool) :
    (e.dropTransactions p).ParentsPresent := by
  obtain ⟨h₁, h₂, h₃, h₄, h₅⟩ := h
  refine ⟨h₁, fun c hc => h₂ c (List.mem_filter.mp hc).1, h₃, fun c hc => ?_, h₅⟩
  obtain ⟨hc, hg⟩ := List.mem_filter.mp hc
  exact (h₄ c hc).filter (Bool.not_eq_true' _ ▸ hg)

theorem ParentsPresent.dropHeaders (h : e.ParentsPresent) (p : HeaderCid → Bool) :
    (e.dropHeaders p).ParentsPresent := by
  obtain ⟨h₁, h₂, h₃, h₄, h₅⟩ := h
  refine ⟨fun c hc => ?_, fun c hc => ?_, fun c hc => ?_, fun c hc => ?_, fun c hc => ?_⟩ <;>
  · obtain ⟨hc, hg⟩ := List.mem_filter.mp hc
    first
      | exact (h₁ c hc).filter (Bool.not_eq_true' _ ▸ hg)
      | exact (h₂ c hc).filter (Bool.not_eq_true' _ ▸ hg)
      | exact (h₃ c hc).filter (Bool.not_eq_true' _ ▸ hg)
      | exact (h₄ c hc).filter (Bool.not_eq_true' _ ▸ hg)
      | exact (h₅ c hc).filter (Bool.not_eq_true' _ ▸ hg)

theorem ParentsPresent.dropReferencing (h : e.ParentsPresent) (K : MhKey → Bool) :
    (e.dropReferencing K).ParentsPresent :=
  ((((((h.dropStorage _).dropState _).dropReceipts _).dropTransactions _).dropUncles _).dropHeaders
    _)

end Parents

/-- No row left by a cascading deletion of the blobs `K` references one of them. -/
theorem mem_rowKeys_dropReferencing {K : MhKey → Bool} {e : EthTables} {k : MhKey}
    (hk : k ∈ (e.dropReferencing K).rowKeys) : K k = false := by
  simp only [dropReferencing, dropHeaders, dropUncles, dropTransactions, dropReceipts, dropState,
    dropStorage, rowKeys, List.mem_append, List.mem_map, List.mem_filter] at hk
  rcases hk with ((((⟨a, h, rfl⟩ | ⟨a, h, rfl⟩) | ⟨a, h, rfl⟩) | ⟨a, h, rfl⟩) | ⟨a, h, rfl⟩) |
      ⟨a, h, rfl⟩ <;> simp_all

end EthTables

/-- What deleting a blob does to the rows that reference it: the `ON DELETE` action of the
`mh_key → public.blocks (key)` references. -/
inductive KeyAction
  /-- `ON DELETE CASCADE`: the referencing rows are deleted with the blob. -/
  | cascade
  /-- `NO ACTION DEFERRABLE INITIALLY DEFERRED`: the rows stay, and the commit is refused while
  one of them references a deleted blob. -/
  | deferredCheck
deriving DecidableEq, Repr

namespace Db

/-- `DELETE FROM public.blocks` of the keys `K` selects. -/
def deleteBlocks (act : KeyAction) (K : MhKey → Bool) (db : Db) : Db where
  blocks := db.blocks.filter fun k => !K k
  eth := match act with
    | .cascade => db.eth.dropReferencing K
    | .deferredCheck => db.eth

@[simp] theorem deleteBlocks_blocks (act : KeyAction) (K : MhKey → Bool) (db : Db) :
    (db.deleteBlocks act K).blocks = db.blocks.filter fun k => !K k := rfl

@[simp] theorem deleteBlocks_deferredCheck_eth (K : MhKey → Bool) (db : Db) :
    (db.deleteBlocks .deferredCheck K).eth = db.eth := rfl

/-- Every `mh_key` is a key of `public.blocks`. -/
def KeysPresent (db : Db) : Prop :=
  ∀ k ∈ db.eth.rowKeys, k ∈ db.blocks

instance (db : Db) : Decidable db.KeysPresent :=
  inferInstanceAs (Decidable (∀ k ∈ db.eth.rowKeys, k ∈ db.blocks))

/-- The referential integrity of the schema: every `mh_key` resolves to a blob and every
parent reference to a row. -/
def Consistent (db : Db) : Prop :=
  db.KeysPresent ∧ db.eth.ParentsPresent

instance (db : Db) : Decidable db.Consistent :=
  inferInstanceAs (Decidable (_ ∧ _))

end Db

/-- The check the server makes at `Commit`: under `deferredCheck` no remaining row may reference
a blob that was there when the transaction began and is gone now. -/
def KeyAction.commitCheck : KeyAction → Db → Db → Bool
  | .cascade, _, _ => true
  | .deferredCheck, init, final =>
      final.eth.rowKeys.all fun k => decide (k ∈ init.blocks → k ∈ final.blocks)

/-- A transaction that changed nothing always commits. -/
theorem KeyAction.commitCheck_self (act : KeyAction) (db : Db) : act.commitCheck db db = true := by
  cases act <;> simp [KeyAction.commitCheck]

end Eth
end IpldEthIndexer
