import Mathlib.Algebra.Group.Nat.Basic
import Mathlib.Data.List.Forall2
import IpldEthIndexer.Eth.Schema

/-!
# The cleaner

`DBCleaner` (`pkg/eth/cleaner.go`) removes indexed data over ranges of block numbers and
resets the validation counter of headers.

**Statements.** Each `clean*IPLDs` deletes the blobs that the rows of one table reference,
joining from `public.blocks` through that table up to `header_cids`; each `clean*MetaData`
deletes the rows of one table, and the cascades delete what lies below them. A range enters a
statement only as `block_number BETWEEN $1 AND $2`, so the statements take that condition as a
predicate `P` on block numbers.

**Control.** `clean` picks the statements of a kind and sends them in order, returning at the
first error. `Clean` runs `clean` for each range inside one transaction, commits, and then
vacuums the tables of the kind outside the transaction. `ResetValidation` sends one `UPDATE`
per range inside one transaction.

**Arguments.** A bound of a range is a Go `uint64`, which the default converter of
`database/sql` refuses from `2^63` on, before the statement reaches the server. Every
statement for a range converts the same two bounds, so such a range fails at its first
statement, whatever the server would do.

**Results.**
* `Clean_all_or_nothing`: whatever fails, `Clean` either leaves the database as it was, or
  leaves exactly what a fully successful `Clean` leaves, having seen only successes up to its
  `Commit`, and then only the vacuum can still report an error.
* `ResetValidation_all_or_nothing`: the same for `ResetValidation`, which zeroes exactly the
  counters of the headers in the ranges.
* `Clean_consistent`: `Clean` keeps the referential integrity of the schema.
-/

namespace IpldEthIndexer
namespace Eth

open Postgres

/-- `shared.DataType`, a Go `int`: the seven kinds the cleaner recognises, and every other
value, `UnknownDataType` among them. -/
inductive DataType
  | full | headers | uncles | transactions | receipts | state | storage
  | unknown (v : Int)
deriving DecidableEq, Repr

/-- The kinds the `switch` statements of the cleaner have a case for. -/
def DataType.recognized : DataType → Bool
  | .unknown _ => false
  | _ => true

/-- The errors `DBCleaner` returns. -/
inductive CleanerError
  /-- An error of the database or of the driver. -/
  | db
  /-- `eth cleaner unrecognized type: %s`. -/
  | unrecognizedType (t : DataType)
deriving DecidableEq, Repr

/-- A `[2]uint64` range: `rng[0]` and `rng[1]` are the bounds of `BETWEEN $1 AND $2`. -/
abbrev Range := Nat × Nat

/-- `block_number BETWEEN rng[0] AND rng[1]`. -/
def inRange (rng : Range) (n : Nat) : Bool :=
  decide (rng.1 ≤ n) && decide (n ≤ rng.2)

/-- The block number lies in one of the ranges. -/
def inAnyRange (rngs : List Range) (n : Nat) : Bool :=
  rngs.any fun rng => inRange rng n

@[simp] theorem inAnyRange_nil : inAnyRange [] = fun _ => false := rfl

theorem inAnyRange_iff (rngs : List Range) (n : Nat) :
    inAnyRange rngs n = true ↔ ∃ rng ∈ rngs, rng.1 ≤ n ∧ n ≤ rng.2 := by
  simp [inAnyRange, inRange]

/-- `driver.DefaultParameterConverter` on a `uint64`: "uint64 values with high bit set are not
supported". -/
def uint64Converts (v : Nat) : Bool :=
  decide (v < 2 ^ 63)

/-- Both bounds of the range reach the server. -/
def rangeConverts (rng : Range) : Bool :=
  uint64Converts rng.1 && uint64Converts rng.2

theorem rangeConverts_iff (rng : Range) :
    rangeConverts rng = true ↔ rng.1 < 2 ^ 63 ∧ rng.2 < 2 ^ 63 := by
  simp [rangeConverts, uint64Converts]

section Statements

variable (act : KeyAction) (P : Nat → Bool)

/-- The blobs referenced by the rows of one table that `joined` selects:
`DELETE FROM public.blocks A USING <table> B, ... WHERE A.key = B.mh_key AND ...`. -/
def cleanIPLDsOf (rows : EthTables → List ChildCid)
    (joined : EthTables → (Nat → Bool) → ChildCid → Bool) (db : Db) : Db :=
  db.deleteBlocks act (keysOf (rows db.eth) ChildCid.mhKey (joined db.eth P))

/-- `cleanStorageIPLDs`: `USING eth.storage_cids B, eth.state_cids C, eth.header_cids D`. -/
def cleanStorageIPLDs : Db → Db :=
  cleanIPLDsOf act P EthTables.storageCids EthTables.ofStates

/-- `cleanStateIPLDs`: `USING eth.state_cids B, eth.header_cids C`. -/
def cleanStateIPLDs : Db → Db :=
  cleanIPLDsOf act P EthTables.stateCids EthTables.ofHeaders

/-- `cleanReceiptIPLDs`: `USING eth.receipt_cids B, eth.transaction_cids C, eth.header_cids D`. -/
def cleanReceiptIPLDs : Db → Db :=
  cleanIPLDsOf act P EthTables.receiptCids EthTables.ofTransactions

/-- `cleanTransactionIPLDs`: `USING eth.transaction_cids B, eth.header_cids C`. -/
def cleanTransactionIPLDs : Db → Db :=
  cleanIPLDsOf act P EthTables.transactionCids EthTables.ofHeaders

/-- `cleanUncleIPLDs`: `USING eth.uncle_cids B, eth.header_cids C`. -/
def cleanUncleIPLDs : Db → Db :=
  cleanIPLDsOf act P EthTables.uncleCids EthTables.ofHeaders

/-- `cleanHeaderIPLDs`: `DELETE FROM public.blocks A USING eth.header_cids B
WHERE A.key = B.mh_key AND B.block_number BETWEEN $1 AND $2`. -/
def cleanHeaderIPLDs (db : Db) : Db :=
  db.deleteBlocks act (keysOf db.eth.headerCids HeaderCid.mhKey (P ·.blockNumber))

/-- The rows of one table that `joined` selects, deleted by `drop`:
`DELETE FROM <table> A USING ... WHERE ...`. -/
def cleanMetaDataOf (drop : (ChildCid → Bool) → EthTables → EthTables)
    (joined : EthTables → (Nat → Bool) → ChildCid → Bool) (db : Db) : Db :=
  { db with eth := drop (joined db.eth P) db.eth }

/-- `cleanStorageMetaData`: `DELETE FROM eth.storage_cids A USING eth.state_cids B,
eth.header_cids C`. -/
def cleanStorageMetaData : Db → Db :=
  cleanMetaDataOf P EthTables.dropStorage EthTables.ofStates

/-- `cleanStateMetaData`: `DELETE FROM eth.state_cids A USING eth.header_cids B`. -/
def cleanStateMetaData : Db → Db :=
  cleanMetaDataOf P EthTables.dropState EthTables.ofHeaders

/-- `cleanReceiptMetaData`: `DELETE FROM eth.receipt_cids A USING eth.transaction_cids B,
eth.header_cids C`. -/
def cleanReceiptMetaData : Db → Db :=
  cleanMetaDataOf P EthTables.dropReceipts EthTables.ofTransactions

/-- `cleanTransactionMetaData`: `DELETE FROM eth.transaction_cids A USING eth.header_cids B`. -/
def cleanTransactionMetaData : Db → Db :=
  cleanMetaDataOf P EthTables.dropTransactions EthTables.ofHeaders

/-- `cleanUncleMetaData`: `DELETE FROM eth.uncle_cids A USING eth.header_cids B`. -/
def cleanUncleMetaData : Db → Db :=
  cleanMetaDataOf P EthTables.dropUncles EthTables.ofHeaders

/-- `cleanHeaderMetaData`: `DELETE FROM eth.header_cids WHERE block_number BETWEEN $1 AND $2`. -/
def cleanHeaderMetaData (db : Db) : Db :=
  { db with eth := db.eth.dropHeaders (P ·.blockNumber) }

/-- `cleanFull`: the blobs of every table from the leaves up, then the header rows. -/
def cleanFull : List (Db → Db) :=
  [cleanStorageIPLDs act P, cleanStateIPLDs act P, cleanReceiptIPLDs act P,
    cleanTransactionIPLDs act P, cleanUncleIPLDs act P, cleanHeaderIPLDs act P,
    cleanHeaderMetaData P]

/-- The `switch t` of `clean`: the statements of each case, and `none` for `default`. -/
def cleanStatements : DataType → Option (List (Db → Db))
  | .full | .headers => some (cleanFull act P)
  | .uncles => some [cleanUncleIPLDs act P, cleanUncleMetaData P]
  | .transactions =>
      some [cleanReceiptIPLDs act P, cleanTransactionIPLDs act P, cleanTransactionMetaData P]
  | .receipts => some [cleanReceiptIPLDs act P, cleanReceiptMetaData P]
  | .state => some [cleanStorageIPLDs act P, cleanStateIPLDs act P, cleanStateMetaData P]
  | .storage => some [cleanStorageIPLDs act P, cleanStorageMetaData P]
  | .unknown _ => none

end Statements

/-- How many statements `clean` sends for one range of each kind. -/
def DataType.statementCount : DataType → Nat
  | .full | .headers => 7
  | .uncles | .receipts | .storage => 2
  | .transactions | .state => 3
  | .unknown _ => 0

/-- The body of `clean` for the condition `P` on `block_number`, when the bounds convert exactly
if `converts`: the `default` branch converts nothing. -/
def cleanWhere (act : KeyAction) (converts : Bool) (P : Nat → Bool) (t : DataType)
    (tx : Tx Db) : Except CleanerError (Tx Db) :=
  match cleanStatements act P t with
  | some stmts => Tx.guard .db converts (Tx.execAll .db stmts) tx
  | none => .error (.unrecognizedType t)

/-- `clean(tx, rng, t)`. -/
def clean (act : KeyAction) (rng : Range) (t : DataType) : Tx Db → Except CleanerError (Tx Db) :=
  cleanWhere act (rangeConverts rng) (inRange rng) t

/-- The loop of `Clean` over the ranges, inside its transaction. -/
def cleanRanges (act : KeyAction) (t : DataType) :
    List Range → Tx Db → Except CleanerError (Tx Db)
  | [], tx => .ok tx
  | rng :: rngs, tx => clean act rng t tx >>= cleanRanges act t rngs

/-- `vacuumHeaders`. -/
def vacuumHeaders : String := "VACUUM ANALYZE eth.header_cids"
/-- `vacuumUncles`. -/
def vacuumUncles : String := "VACUUM ANALYZE eth.uncle_cids"
/-- `vacuumTxs`. -/
def vacuumTxs : String := "VACUUM ANALYZE eth.transaction_cids"
/-- `vacuumRcts`. -/
def vacuumRcts : String := "VACUUM ANALYZE eth.receipt_cids"
/-- `vacuumState`. -/
def vacuumState : String := "VACUUM ANALYZE eth.state_cids"
/-- `vacuumAccounts`. -/
def vacuumAccounts : String := "VACUUM ANALYZE eth.state_accounts"
/-- `vacuumStorage`. -/
def vacuumStorage : String := "VACUUM ANALYZE eth.storage_cids"
/-- `vacuumIPLDs`. -/
def vacuumIPLDs : String := "VACUUM ANALYZE public.blocks"

/-- `vacuumFull`. -/
def vacuumFull : List String :=
  [vacuumHeaders, vacuumUncles, vacuumTxs, vacuumRcts, vacuumState, vacuumAccounts, vacuumStorage]

/-- The `switch t` of `vacuumAnalyze`: the statements it sends, and `none` for `default`.
`Full` and `Headers` return from `vacuumFull` and never reach `vacuumIPLDs`. -/
def vacuumStatements : DataType → Option (List String)
  | .full | .headers => some vacuumFull
  | .uncles => some [vacuumUncles, vacuumIPLDs]
  | .transactions => some [vacuumTxs, vacuumRcts, vacuumIPLDs]
  | .receipts => some [vacuumRcts, vacuumIPLDs]
  | .state => some [vacuumState, vacuumAccounts, vacuumStorage, vacuumIPLDs]
  | .storage => some [vacuumStorage, vacuumIPLDs]
  | .unknown _ => none

/-- `c.db.Exec` of each statement, outside any transaction, returning at the first error.
Vacuuming changes no row, so only its outcome is modelled. -/
def vacuumAll : List String → List Bool → Except CleanerError Unit
  | [], _ => .ok ()
  | _ :: stmts, fs => if nextFails fs then .error .db else vacuumAll stmts fs.tail

/-- `vacuumAnalyze(t)`. -/
def vacuumAnalyze (t : DataType) (fs : List Bool) : Except CleanerError Unit :=
  match vacuumStatements t with
  | some stmts => vacuumAll stmts fs
  | none => .error (.unrecognizedType t)

/-- `Clean(rngs, t)`: the error it returns and the database it leaves. -/
def Clean (act : KeyAction) (rngs : List Range) (t : DataType) (db : Db) (fs : List Bool) :
    Except CleanerError Unit × Db :=
  match transact .db act.commitCheck (cleanRanges act t rngs) db fs with
  | (.error e, db') => (.error e, db')
  | (.ok fs', db') => (vacuumAnalyze t fs', db')

/-- `SET times_validated = 0 WHERE block_number BETWEEN $1 AND $2` on one header row. -/
def resetRow (R : Nat → Bool) (h : HeaderCid) : HeaderCid :=
  if R h.blockNumber then { h with timesValidated := 0 } else h

section ResetRow

variable (R : Nat → Bool) (h : HeaderCid)

@[simp] theorem resetRow_id : (resetRow R h).id = h.id := by
  unfold resetRow; split <;> rfl

@[simp] theorem resetRow_blockNumber : (resetRow R h).blockNumber = h.blockNumber := by
  unfold resetRow; split <;> rfl

@[simp] theorem resetRow_mhKey : (resetRow R h).mhKey = h.mhKey := by
  unfold resetRow; split <;> rfl

theorem resetRow_resetRow (Q : Nat → Bool) :
    resetRow Q (resetRow R h) = resetRow (fun n => R n || Q n) h := by
  unfold resetRow
  by_cases hr : R h.blockNumber = true <;> by_cases hq : Q h.blockNumber = true <;> simp [hr, hq]

end ResetRow

/-- The `eth` tables after that `UPDATE`: only `header_cids` changes. -/
def EthTables.resetHeaders (R : Nat → Bool) (e : EthTables) : EthTables :=
  { e with headerCids := e.headerCids.map (resetRow R) }

/-- `UPDATE eth.header_cids SET times_validated = 0 WHERE block_number BETWEEN $1 AND $2`. -/
def resetValidation (P : Nat → Bool) (db : Db) : Db :=
  { db with eth := db.eth.resetHeaders P }

/-- The loop of `ResetValidation` over the ranges, inside its transaction: the `UPDATE` of each
range, whose bounds are converted first. -/
def resetRanges : List Range → Tx Db → Except CleanerError (Tx Db)
  | [], tx => .ok tx
  | rng :: rngs, tx =>
      Tx.guard .db (rangeConverts rng) (Tx.exec .db (resetValidation (inRange rng))) tx >>=
        resetRanges rngs

/-- `ResetValidation(rngs)`: one `UPDATE` per range inside one transaction. -/
def ResetValidation (act : KeyAction) (rngs : List Range) (db : Db) (fs : List Bool) :
    Except CleanerError Unit × Db :=
  match transact .db act.commitCheck (resetRanges rngs) db fs with
  | (.error e, db') => (.error e, db')
  | (.ok _, db') => (.ok (), db')

/-! ## What a run without faults computes -/

/-- The state `clean` reaches when no statement fails; the `default` branch sends none. -/
def cleanEffect (act : KeyAction) (P : Nat → Bool) (t : DataType) (db : Db) : Db :=
  match cleanStatements act P t with
  | some stmts => runAll stmts db
  | none => db

/-- The state the loop of `Clean` reaches when no statement fails. -/
def rangesEffect (act : KeyAction) (t : DataType) : List Range → Db → Db
  | [], db => db
  | rng :: rngs, db => rangesEffect act t rngs (cleanEffect act (inRange rng) t db)

section Effects

variable {act : KeyAction} {t : DataType}

theorem cleanStatements_isSome (P : Nat → Bool) :
    (cleanStatements act P t).isSome = t.recognized := by
  cases t <;> rfl

theorem length_cleanStatements {P : Nat → Bool} {stmts : List (Db → Db)}
    (h : cleanStatements act P t = some stmts) : stmts.length = t.statementCount := by
  cases t <;> simp only [cleanStatements, cleanFull, Option.some.injEq, reduceCtorEq] at h <;>
    subst h <;> rfl

theorem computes_cleanWhere (c : Bool) (P : Nat → Bool) :
    Computes (cleanWhere act c P t) (cleanEffect act P t) := by
  unfold cleanWhere cleanEffect
  split
  · exact Computes.guard _ c (Computes.execAll _ _)
  · exact Computes.of_error _

theorem computes_cleanRanges : ∀ rngs : List Range,
    Computes (cleanRanges act t rngs) (rangesEffect act t rngs)
  | [] => fun _ _ h => by cases h; rfl
  | _ :: rngs => (computes_cleanWhere _ _).bind (computes_cleanRanges rngs)

theorem faultFree_cleanWhere (ht : t.recognized = true) {c : Bool} (hc : c = true)
    (P : Nat → Bool) : FaultFree (cleanWhere act c P t) (cleanEffect act P t) := by
  have : (cleanStatements act P t).isSome = t.recognized := cleanStatements_isSome P
  unfold cleanWhere cleanEffect
  split
  · exact FaultFree.guard _ hc (FaultFree.execAll _ _)
  · simp_all

theorem faultFree_cleanRanges (ht : t.recognized = true) : ∀ {rngs : List Range},
    (∀ rng ∈ rngs, rangeConverts rng = true) →
      FaultFree (cleanRanges act t rngs) (rangesEffect act t rngs)
  | [], _ => fun _ => rfl
  | rng :: _, hv => (faultFree_cleanWhere ht (hv rng (List.mem_cons_self _ _)) _).bind
      (faultFree_cleanRanges ht fun r hr => hv r (List.mem_cons_of_mem rng hr))

theorem consumes_cleanWhere (c : Bool) (P : Nat → Bool) :
    Consumes (cleanWhere act c P t) t.statementCount := by
  intro tx tx' h
  unfold cleanWhere at h
  split at h
  · exact Consumes.guard _ c (length_cleanStatements ‹_› ▸ Consumes.execAll _ _) tx tx' h
  · cases h

/-- Each range takes the outcomes of the statements of one kind. -/
theorem consumes_cleanRanges : ∀ rngs : List Range,
    Consumes (cleanRanges act t rngs) (t.statementCount * rngs.length)
  | [] => fun _ _ h => by cases h; simp
  | _ :: rngs => by
      rw [List.length_cons, Nat.mul_succ, Nat.add_comm]
      exact (consumes_cleanWhere _ _).bind (consumes_cleanRanges rngs)

theorem cleanWhere_unrecognized (ht : t.recognized = false) (c : Bool) (P : Nat → Bool)
    (tx : Tx Db) : cleanWhere act c P t tx = .error (.unrecognizedType t) := by
  cases t <;> simp_all [cleanWhere, cleanStatements, DataType.recognized]

/-- A recognised kind over a range that converts sends its statements and fails exactly when
one of them does, whatever they do. -/
theorem cleanWhere_true (ht : t.recognized = true) (P : Nat → Bool) (tx : Tx Db) :
    cleanWhere act true P t tx = if (tx.faults.take t.statementCount).any id then .error .db
      else .ok ⟨cleanEffect act P t tx.db, tx.faults.drop t.statementCount⟩ := by
  have hs : (cleanStatements act P t).isSome = true := (cleanStatements_isSome P).trans ht
  obtain ⟨stmts, h⟩ := Option.isSome_iff_exists.mp hs
  simp only [cleanWhere, cleanEffect, h, Tx.guard, ↓reduceIte, Tx.execAll_eq,
    length_cleanStatements h]

/-- A recognised kind fails at a range whose bounds do not convert. -/
theorem cleanWhere_unconverted (ht : t.recognized = true) (P : Nat → Bool) (tx : Tx Db) :
    cleanWhere act false P t tx = .error .db := by
  have : (cleanStatements act P t).isSome = t.recognized := cleanStatements_isSome P
  unfold cleanWhere
  split
  · rfl
  · simp_all

theorem cleanRanges_ne_ok (ht : t.recognized = true) : ∀ {rngs : List Range},
    (∃ rng ∈ rngs, rangeConverts rng = false) → ∀ tx tx', cleanRanges act t rngs tx ≠ .ok tx'
  | rng :: _, ⟨r, hr, hc⟩, tx, tx', h => by
      obtain ⟨tx₁, h₁, h₂⟩ := bind_eq_ok.mp h
      rcases List.mem_cons.mp hr with rfl | hr
      · rw [clean, hc, cleanWhere_unconverted ht] at h₁
        cases h₁
      · exact cleanRanges_ne_ok ht ⟨r, hr, hc⟩ tx₁ tx' h₂

theorem cleanEffect_unrecognized (ht : t.recognized = false) (P : Nat → Bool) (db : Db) :
    cleanEffect act P t db = db := by
  cases t <;> simp_all [cleanEffect, cleanStatements, DataType.recognized]

theorem rangesEffect_unrecognized (ht : t.recognized = false) :
    ∀ (rngs : List Range) (db : Db), rangesEffect act t rngs db = db
  | [], _ => rfl
  | _ :: rngs, db => by
      rw [rangesEffect, cleanEffect_unrecognized ht, rangesEffect_unrecognized ht rngs]

theorem vacuumAll_nil : ∀ stmts : List String, vacuumAll stmts [] = .ok ()
  | [] => rfl
  | _ :: stmts => vacuumAll_nil stmts

theorem vacuumAnalyze_nil (ht : t.recognized = true) : vacuumAnalyze t [] = .ok () := by
  cases t <;> simp_all [vacuumAnalyze, vacuumStatements, vacuumAll_nil, DataType.recognized]

theorem vacuumAnalyze_unrecognized (ht : t.recognized = false) (fs : List Bool) :
    vacuumAnalyze t fs = .error (.unrecognizedType t) := by
  cases t <;> simp_all [vacuumAnalyze, vacuumStatements, DataType.recognized]

end Effects

/-! ## Outcomes of `Clean` and `ResetValidation` -/

section Outcomes

variable (act : KeyAction) (rngs : List Range) (t : DataType) (db : Db)

/-- `Clean` either fails with the database it started from, or commits what its loop computes
after `Begin`, every statement and `Commit` succeeded, and vacuums with the outcomes left. -/
theorem Clean_cases (fs : List Bool) :
    (∃ e, Clean act rngs t db fs = (.error e, db)) ∨
      act.commitCheck db (rangesEffect act t rngs db) = true ∧
        (∀ b ∈ fs.take (t.statementCount * rngs.length + 2), b = false) ∧
        Clean act rngs t db fs = (vacuumAnalyze t (fs.drop (t.statementCount * rngs.length + 2)),
          rangesEffect act t rngs db) := by
  unfold Clean
  rcases transact_cases CleanerError.db act.commitCheck db fs (computes_cleanRanges rngs) with
    ⟨e, he⟩ | ⟨fs', hc, he⟩
  · exact .inl ⟨e, by rw [he]⟩
  · obtain ⟨hf, rfl⟩ := transact_ok_faults _ _ _ _ (consumes_cleanRanges rngs) he
    exact .inr ⟨hc, hf, by rw [he]⟩

/-- Without faults, `Clean` of a recognised kind over ranges that convert commits exactly when
the deferred check accepts the state its loop reaches, and the vacuum then succeeds. -/
theorem Clean_nil (ht : t.recognized = true) (hv : ∀ rng ∈ rngs, rangeConverts rng = true) :
    Clean act rngs t db [] = if act.commitCheck db (rangesEffect act t rngs db)
      then (.ok (), rangesEffect act t rngs db) else (.error .db, db) := by
  unfold Clean
  rw [transact_nil (faultFree_cleanRanges ht hv)]
  cases act.commitCheck db (rangesEffect act t rngs db) <;> simp [vacuumAnalyze_nil ht]

/-- A recognised kind with a range whose bounds do not convert always fails, with the database
it started from. -/
theorem Clean_unconverted (ht : t.recognized = true) (hv : ∃ rng ∈ rngs, rangeConverts rng = false)
    (fs : List Bool) : ∃ e, Clean act rngs t db fs = (.error e, db) := by
  obtain ⟨e, he⟩ := transact_of_fails CleanerError.db act.commitCheck db fs
    (cleanRanges_ne_ok ht hv)
  exact ⟨e, by rw [Clean, he]⟩

/-- Without faults, `Clean` of an unrecognised kind reports it, from the first range or, when
there is none, from the vacuum. -/
theorem Clean_unrecognized_nil (ht : t.recognized = false) :
    Clean act rngs t db [] = (.error (.unrecognizedType t), db) := by
  cases rngs with
  | nil => simp [Clean, transact, cleanRanges, act.commitCheck_self, vacuumAnalyze_unrecognized ht]
  | cons rng rngs => simp [Clean, transact, cleanRanges, clean, cleanWhere_unrecognized ht]

/-- **Atomicity of `Clean`.** Whatever statements fail, `Clean` either returns an error with the
database it started from, or it saw only successes from `Begin` through every statement to
`Commit` and leaves the state a fully successful `Clean` leaves, with the outcome of the vacuum,
sent with the outcomes after `Commit`, as its result. An unrecognised kind never changes the
data. -/
theorem Clean_all_or_nothing (fs : List Bool) :
    ((∃ e, Clean act rngs t db fs = (.error e, db)) ∨
      (∀ b ∈ fs.take (t.statementCount * rngs.length + 2), b = false) ∧
        Clean act rngs t db fs = (vacuumAnalyze t (fs.drop (t.statementCount * rngs.length + 2)),
          (Clean act rngs t db []).2) ∧
        (Clean act rngs t db []).1 = .ok ()) ∧
    (t.recognized = false → (Clean act rngs t db fs).2 = db) := by
  rcases Clean_cases act rngs t db fs with ⟨e, he⟩ | ⟨hc, hf, he⟩
  · exact ⟨.inl ⟨e, he⟩, fun _ => by rw [he]⟩
  · cases ht : t.recognized
    · rw [rangesEffect_unrecognized ht, vacuumAnalyze_unrecognized ht] at he
      exact ⟨.inl ⟨_, he⟩, fun _ => by rw [he]⟩
    · by_cases hv : ∀ rng ∈ rngs, rangeConverts rng = true
      · rw [Clean_nil act rngs t db ht hv, if_pos hc]
        exact ⟨.inr ⟨hf, he, rfl⟩, fun h => by simp at h⟩
      · obtain ⟨e, he'⟩ := Clean_unconverted act rngs t db ht (by simpa using hv) fs
        exact ⟨.inl ⟨e, he'⟩, fun h => by simp at h⟩

theorem resetValidation_false : resetValidation (fun _ => false) db = db := by
  have : resetRow (fun _ => false) = id := rfl
  simp [resetValidation, EthTables.resetHeaders, this]

theorem resetValidation_resetValidation (P Q : Nat → Bool) :
    resetValidation Q (resetValidation P db) = resetValidation (fun n => P n || Q n) db := by
  simp only [resetValidation, EthTables.resetHeaders, List.map_map, Function.comp_def,
    resetRow_resetRow]

theorem comp_resetValidation (rng : Range) (rngs : List Range) :
    resetValidation (inAnyRange rngs) ∘ resetValidation (inRange rng) =
      resetValidation (inAnyRange (rng :: rngs)) :=
  funext fun db => resetValidation_resetValidation db _ _

theorem computes_resetRanges : ∀ rngs : List Range,
    Computes (resetRanges rngs) (resetValidation (inAnyRange rngs))
  | [] => fun _ _ h => by cases h; rw [inAnyRange_nil, resetValidation_false]
  | rng :: rngs => by
      rw [← comp_resetValidation]
      exact (Computes.guard .db _ (Computes.exec .db _)).bind (computes_resetRanges rngs)

theorem faultFree_resetRanges : ∀ {rngs : List Range},
    (∀ rng ∈ rngs, rangeConverts rng = true) →
      FaultFree (resetRanges rngs) (resetValidation (inAnyRange rngs))
  | [], _ => fun _ => by rw [inAnyRange_nil, resetValidation_false]; rfl
  | rng :: _, hv => by
      rw [← comp_resetValidation]
      exact (FaultFree.guard .db (hv rng (List.mem_cons_self _ _)) (FaultFree.exec .db _)).bind
        (faultFree_resetRanges fun r hr => hv r (List.mem_cons_of_mem rng hr))

/-- A range whose bounds do not convert fails the loop, at its own `UPDATE` or earlier. -/
theorem resetRanges_unconverted : ∀ {rngs : List Range},
    (∃ rng ∈ rngs, rangeConverts rng = false) → ∀ tx, resetRanges rngs tx = .error .db
  | rng :: _, ⟨r, hr, hc⟩, tx => by
      rw [resetRanges]
      cases hrc : rangeConverts rng
      · rfl
      · have hr : r ∈ _ := (List.mem_cons.mp hr).resolve_left fun h => by simp_all
        simp only [Tx.guard, if_true, Tx.exec]
        split
        · rfl
        · exact resetRanges_unconverted ⟨r, hr, hc⟩ _

theorem rowKeys_resetHeaders (R : Nat → Bool) (e : EthTables) :
    (e.resetHeaders R).rowKeys = e.rowKeys := by
  simp [EthTables.rowKeys, EthTables.resetHeaders, Function.comp_def]

theorem commitCheck_resetValidation (P : Nat → Bool) :
    act.commitCheck db (resetValidation P db) = true := by
  cases act
  · rfl
  · simp [KeyAction.commitCheck, resetValidation, rowKeys_resetHeaders]

/-- Whatever fails, `ResetValidation` either rolls back or commits the reset of the headers in
its ranges. -/
theorem ResetValidation_cases (fs : List Bool) :
    (∃ e, ResetValidation act rngs db fs = (.error e, db)) ∨
      ResetValidation act rngs db fs = (.ok (), resetValidation (inAnyRange rngs) db) := by
  unfold ResetValidation
  rcases transact_cases CleanerError.db act.commitCheck db fs (computes_resetRanges rngs)
    with ⟨e, he⟩ | ⟨fs', -, he⟩
  · exact .inl ⟨e, by rw [he]⟩
  · exact .inr (by rw [he])

theorem ResetValidation_nil (hv : ∀ rng ∈ rngs, rangeConverts rng = true) :
    ResetValidation act rngs db [] = (.ok (), resetValidation (inAnyRange rngs) db) := by
  simp [ResetValidation, transact_fault_free (faultFree_resetRanges hv)
    (commitCheck_resetValidation act db _)]

theorem ResetValidation_unconverted (hv : ∃ rng ∈ rngs, rangeConverts rng = false)
    (fs : List Bool) : ResetValidation act rngs db fs = (.error .db, db) := by
  simp [ResetValidation, transact, resetRanges_unconverted hv]

/-- The reset, row by row: `times_validated` becomes `0` exactly on the headers in the ranges,
and every other column keeps its value. -/
theorem forall₂_resetHeaders (e : EthTables) :
    List.Forall₂ (fun h' h => h' = { h with timesValidated :=
        if ∃ rng ∈ rngs, rng.1 ≤ h.blockNumber ∧ h.blockNumber ≤ rng.2 then 0
        else h.timesValidated })
      (e.resetHeaders (inAnyRange rngs)).headerCids e.headerCids := by
  rw [EthTables.resetHeaders, List.forall₂_map_left_iff, List.forall₂_same]
  intro h _
  rw [resetRow]
  by_cases hr : inAnyRange rngs h.blockNumber = true
  · rw [if_pos hr, if_pos ((inAnyRange_iff _ _).mp hr)]
  · rw [if_neg hr, if_neg (mt (inAnyRange_iff _ _).mpr hr)]

/-- **`ResetValidation`.** It either returns an error with the database it started from, or
succeeds having set `times_validated = 0` on exactly the headers in the ranges, with every other
header row, every other column and every other table unchanged; applying it twice leaves what
applying it once leaves. -/
theorem ResetValidation_all_or_nothing (fs : List Bool) :
    ((∃ e, ResetValidation act rngs db fs = (.error e, db)) ∨
      ∃ db', ResetValidation act rngs db fs = (.ok (), db') ∧ db'.blocks = db.blocks ∧
        db'.eth = { db.eth with headerCids := db'.eth.headerCids } ∧
        List.Forall₂ (fun h' h => h' = { h with timesValidated :=
            if ∃ rng ∈ rngs, rng.1 ≤ h.blockNumber ∧ h.blockNumber ≤ rng.2 then 0
            else h.timesValidated })
          db'.eth.headerCids db.eth.headerCids) ∧
    (ResetValidation act rngs (ResetValidation act rngs db []).2 []).2 =
      (ResetValidation act rngs db []).2 := by
  refine ⟨(ResetValidation_cases act rngs db fs).imp id fun h =>
    ⟨resetValidation (inAnyRange rngs) db, h, rfl, rfl, forall₂_resetHeaders rngs db.eth⟩, ?_⟩
  by_cases hv : ∀ rng ∈ rngs, rangeConverts rng = true
  · rw [ResetValidation_nil act rngs db hv, ResetValidation_nil act rngs _ hv,
      resetValidation_resetValidation]
    simp
  · have he := ResetValidation_unconverted act rngs db (by simpa using hv) []
    rw [he, he]

end Outcomes

/-! ## Referential integrity -/

/-- What every statement of the cleaner respects: it only removes rows, keeps every parent
reference resolvable, and, when deleting a blob cascades, deletes no blob a remaining row
references. -/
structure Sound (act : KeyAction) (f : Db → Db) : Prop where
  shrunk : ∀ db, (f db).eth.Shrunk db.eth
  parents : ∀ db, db.eth.ParentsPresent → (f db).eth.ParentsPresent
  kept : act = .cascade →
    ∀ db, ∀ k ∈ (f db).eth.rowKeys, k ∈ db.blocks → k ∈ (f db).blocks

section Soundness

variable {act : KeyAction}

theorem Sound.id : Sound act fun db => db :=
  ⟨fun _ => EthTables.Shrunk.refl _, fun _ h => h, fun _ _ _ _ h => h⟩

theorem Sound.comp {f g : Db → Db} (hf : Sound act f) (hg : Sound act g) :
    Sound act (g ∘ f) :=
  ⟨fun db => (hg.shrunk (f db)).trans (hf.shrunk db),
    fun db h => hg.parents _ (hf.parents db h),
    fun ha db k hk hb => hg.kept ha _ k hk (hf.kept ha db k ((hg.shrunk (f db)).rowKeys hk) hb)⟩

theorem Sound.runAll :
    ∀ {fs : List (Db → Db)}, (∀ f ∈ fs, Sound act f) → Sound act (runAll fs)
  | [], _ => Sound.id
  | f :: fs, h => (h f (List.mem_cons_self f fs)).comp
      (Sound.runAll fun g hg => h g (List.mem_cons_of_mem f hg))

/-- A statement that changes only `eth`, by a deletion that only removes rows and keeps the
parent references resolvable. -/
theorem Sound.eth {g : Db → EthTables} (hs : ∀ db, (g db).Shrunk db.eth)
    (hp : ∀ db, db.eth.ParentsPresent → (g db).ParentsPresent) :
    Sound act fun db => { db with eth := g db } :=
  ⟨hs, hp, fun _ _ _ _ hb => hb⟩

/-- Under a cascading reference, a sound run keeps every `mh_key` resolvable. -/
theorem Sound.keysPresent {f : Db → Db} (h : Sound .cascade f) {db : Db} (hk : db.KeysPresent) :
    (f db).KeysPresent :=
  fun k hk' => h.kept rfl db k hk' (hk k ((h.shrunk db).rowKeys hk'))

/-- A sound run under a cascading reference would also pass the deferred check. -/
theorem Sound.commitCheck {f : Db → Db} (h : Sound .cascade f) (db : Db) :
    KeyAction.commitCheck .deferredCheck db (f db) = true := by
  simp only [KeyAction.commitCheck, List.all_eq_true, decide_eq_true_eq]
  exact h.kept rfl db

theorem sound_deleteBlocks (K : Db → MhKey → Bool) :
    Sound act fun db => db.deleteBlocks act (K db) := by
  cases act with
  | cascade =>
      exact ⟨fun db => db.eth.shrunk_dropReferencing _, fun _ h => h.dropReferencing _,
        fun _ _ k hk hb => List.mem_filter.mpr
          ⟨hb, by simp [EthTables.mem_rowKeys_dropReferencing hk]⟩⟩
  | deferredCheck =>
      exact ⟨fun _ => EthTables.Shrunk.refl _, fun _ h => h, nofun⟩

theorem sound_cleanMetaDataOf (act : KeyAction) (P : Nat → Bool)
    {drop : (ChildCid → Bool) → EthTables → EthTables}
    (joined : EthTables → (Nat → Bool) → ChildCid → Bool)
    (hs : ∀ p e, (drop p e).Shrunk e)
    (hp : ∀ p e, e.ParentsPresent → (drop p e).ParentsPresent) :
    Sound act (cleanMetaDataOf P drop joined) :=
  Sound.eth (fun _ => hs _ _) (fun _ h => hp _ _ h)

/-- Every statement `clean` sends is sound. -/
theorem sound_cleanStatements (act : KeyAction) (P : Nat → Bool) (t : DataType)
    {stmts : List (Db → Db)} (h : cleanStatements act P t = some stmts) :
    ∀ f ∈ stmts, Sound act f := by
  have hH : Sound act (cleanHeaderMetaData P) :=
    Sound.eth (fun db => db.eth.shrunk_dropHeaders _) (fun _ h => h.dropHeaders _)
  have hI : ∀ rows joined, Sound act (cleanIPLDsOf act P rows joined) :=
    fun _ _ => sound_deleteBlocks _
  have hS := sound_cleanMetaDataOf act P EthTables.ofStates
    (fun p e => e.shrunk_dropStorage p) fun _ _ h => h.dropStorage _
  have hSt := sound_cleanMetaDataOf act P EthTables.ofHeaders
    (fun p e => e.shrunk_dropState p) fun _ _ h => h.dropState _
  have hR := sound_cleanMetaDataOf act P EthTables.ofTransactions
    (fun p e => e.shrunk_dropReceipts p) fun _ _ h => h.dropReceipts _
  have hT := sound_cleanMetaDataOf act P EthTables.ofHeaders
    (fun p e => e.shrunk_dropTransactions p) fun _ _ h => h.dropTransactions _
  have hU := sound_cleanMetaDataOf act P EthTables.ofHeaders
    (fun p e => e.shrunk_dropUncles p) fun _ _ h => h.dropUncles _
  have hHI : Sound act (cleanHeaderIPLDs act P) := sound_deleteBlocks _
  intro f hf
  cases t <;> simp only [cleanStatements, cleanFull, Option.some.injEq, reduceCtorEq] at h <;>
    subst h <;> simp only [List.mem_cons, List.mem_singleton, List.not_mem_nil, or_false] at hf <;>
    rcases hf with rfl | rfl | rfl | rfl | rfl | rfl | rfl <;>
    first | exact hH | exact hHI | exact hI _ _ | exact hS | exact hSt | exact hR | exact hT |
      exact hU

theorem sound_cleanEffect (P : Nat → Bool) (t : DataType) : Sound act (cleanEffect act P t) := by
  unfold cleanEffect
  split
  · exact Sound.runAll (sound_cleanStatements act P t ‹_›)
  · exact Sound.id

theorem sound_rangesEffect (act : KeyAction) (t : DataType) :
    ∀ rngs : List Range, Sound act (rangesEffect act t rngs)
  | [] => Sound.id
  | _ :: rngs => (sound_cleanEffect _ t).comp (sound_rangesEffect act t rngs)

end Soundness

/-- Two headers, at blocks 10 and 11, that include the same transaction: its two rows share the
content-addressed blob `3`, while their receipts have blobs of their own. -/
def forkDb : Db where
  blocks := [1, 2, 3, 4, 5]
  eth :=
    { headerCids := [⟨1, 10, 1, 0⟩, ⟨2, 11, 2, 0⟩], uncleCids := []
      transactionCids := [⟨1, 1, 3⟩, ⟨2, 2, 3⟩]
      receiptCids := [⟨1, 1, 4⟩, ⟨2, 2, 5⟩]
      stateCids := [], storageCids := [] }

/-- **`Clean` keeps the referential integrity of the schema.** From a database in which every
`mh_key` is a key of `public.blocks` and every parent reference names a row, every run of
`Clean` leaves a database with the same two properties: under a cascading `mh_key` reference
each statement keeps them, and under a deferred check the commit enforces them. -/
theorem Clean_consistent (act : KeyAction) (rngs : List Range) (t : DataType) (db : Db)
    (fs : List Bool) (h : db.Consistent) : (Clean act rngs t db fs).2.Consistent := by
  rcases Clean_cases act rngs t db fs with ⟨e, he⟩ | ⟨hc, -, he⟩
  · rw [he]
    exact h
  · rw [he]
    have hs := sound_rangesEffect act t rngs
    refine ⟨?_, hs.parents db h.2⟩
    cases act with
    | cascade => exact hs.keysPresent h.1
    | deferredCheck =>
        intro k hk
        simp only [KeyAction.commitCheck, List.all_eq_true, decide_eq_true_eq] at hc
        exact hc k hk (h.1 k ((hs.shrunk db).rowKeys hk))

theorem forkDb_Clean_consistent :
    forkDb.Consistent ∧ (Clean .cascade [(10, 10)] .transactions forkDb []).2.Consistent :=
  ⟨by decide, Clean_consistent .cascade [(10, 10)] .transactions forkDb [] (by decide)⟩

end Eth
end IpldEthIndexer
