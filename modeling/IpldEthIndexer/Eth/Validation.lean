import IpldEthIndexer.Eth.CascadeBounds

/-!
# Resetting validation and cleaning

`ResetValidation` rewrites one column of `header_cids`, `times_validated`, and no statement of
the cleaner reads it: every join of a clean goes through `id`, `block_number` and `mh_key`, and
the deferred check through `mh_key` and `public.blocks`. The reset therefore commutes with every
statement of every kind, under either blob reference, and with whole `Clean`s, whatever fails.

**Results.**
* `cleanStatements_resetValidation`: every statement of every kind commutes with the reset.
* `Clean_resetValidation`: `Clean` on a reset database returns what it returns on the database
  and leaves the reset of what it leaves.
* `ResetValidation_eq`: whether `ResetValidation` fails depends on its ranges and the faults
  alone.
* `Clean_after_ResetValidation`: `ResetValidation` then `Clean` returns what `Clean` alone
  returns, and leaves what `Clean` then `ResetValidation` leaves.
-/

namespace IpldEthIndexer
namespace Eth

open Postgres

namespace EthTables

variable (R : Nat → Bool) (e : EthTables)

/-- A join through `header_cids` on columns the reset keeps sees the same rows. -/
theorem anyRow_resetRow {col : HeaderCid → Nat} {p : HeaderCid → Bool} {v : Nat}
    (hc : ∀ h, col (resetRow R h) = col h) (hp : ∀ h, p (resetRow R h) = p h)
    (hs : List HeaderCid) : anyRow (hs.map (resetRow R)) col p v = anyRow hs col p v := by
  simp only [anyRow, List.any_map, Function.comp_def, hc, hp]

theorem ofHeaders_resetHeaders (P : Nat → Bool) : (e.resetHeaders R).ofHeaders P = e.ofHeaders P :=
  funext fun _ => anyRow_resetRow R (resetRow_id R) (fun h => congrArg P (resetRow_blockNumber R h)) _

theorem ofTransactions_resetHeaders (P : Nat → Bool) :
    (e.resetHeaders R).ofTransactions P = e.ofTransactions P := by
  unfold ofTransactions
  rw [ofHeaders_resetHeaders]
  rfl

theorem ofStates_resetHeaders (P : Nat → Bool) : (e.resetHeaders R).ofStates P = e.ofStates P := by
  unfold ofStates
  rw [ofHeaders_resetHeaders]
  rfl

section Drops

variable (p : ChildCid → Bool)

theorem dropStorage_resetHeaders : (e.resetHeaders R).dropStorage p = (e.dropStorage p).resetHeaders R := rfl
theorem dropReceipts_resetHeaders : (e.resetHeaders R).dropReceipts p = (e.dropReceipts p).resetHeaders R := rfl
theorem dropUncles_resetHeaders : (e.resetHeaders R).dropUncles p = (e.dropUncles p).resetHeaders R := rfl
theorem dropState_resetHeaders : (e.resetHeaders R).dropState p = (e.dropState p).resetHeaders R := rfl
theorem dropTransactions_resetHeaders :
    (e.resetHeaders R).dropTransactions p = (e.dropTransactions p).resetHeaders R := rfl

end Drops

theorem dropHeaders_resetHeaders {p : HeaderCid → Bool} (hp : ∀ h, p (resetRow R h) = p h) :
    (e.resetHeaders R).dropHeaders p = (e.dropHeaders p).resetHeaders R := by
  have hg : childOf (e.resetHeaders R).headerCids HeaderCid.id p =
      childOf e.headerCids HeaderCid.id p :=
    funext fun _ => anyRow_resetRow R (resetRow_id R) hp _
  unfold dropHeaders
  rw [hg]
  simp only [resetHeaders, List.filter_map, Function.comp_def, hp]
  rfl

theorem dropReferencing_resetHeaders (K : MhKey → Bool) :
    (e.resetHeaders R).dropReferencing K = (e.dropReferencing K).resetHeaders R := by
  simp only [dropReferencing, dropStorage_resetHeaders, dropState_resetHeaders,
    dropReceipts_resetHeaders, dropTransactions_resetHeaders, dropUncles_resetHeaders,
    dropHeaders_resetHeaders R _ (p := fun h => K h.mhKey) fun h => congrArg K (resetRow_mhKey R h)]

end EthTables

section Statements

variable (R : Nat → Bool) (act : KeyAction) (P : Nat → Bool)

theorem deleteBlocks_resetValidation (K : MhKey → Bool) (db : Db) :
    (resetValidation R db).deleteBlocks act K = resetValidation R (db.deleteBlocks act K) := by
  cases act
  · simp only [resetValidation, Db.deleteBlocks, EthTables.dropReferencing_resetHeaders]
  · rfl

theorem cleanIPLDsOf_resetValidation (rows : EthTables → List ChildCid)
    (joined : EthTables → (Nat → Bool) → ChildCid → Bool)
    (hr : ∀ e, rows (e.resetHeaders R) = rows e) (hj : ∀ e, joined (e.resetHeaders R) P = joined e P)
    (db : Db) :
    cleanIPLDsOf act P rows joined (resetValidation R db) =
      resetValidation R (cleanIPLDsOf act P rows joined db) := by
  simp only [cleanIPLDsOf, resetValidation, hr, hj]
  exact deleteBlocks_resetValidation R act _ db

theorem cleanMetaDataOf_resetValidation (drop : (ChildCid → Bool) → EthTables → EthTables)
    (joined : EthTables → (Nat → Bool) → ChildCid → Bool)
    (hd : ∀ e p, drop p (e.resetHeaders R) = (drop p e).resetHeaders R)
    (hj : ∀ e, joined (e.resetHeaders R) P = joined e P) (db : Db) :
    cleanMetaDataOf P drop joined (resetValidation R db) =
      resetValidation R (cleanMetaDataOf P drop joined db) := by
  simp only [cleanMetaDataOf, resetValidation, hj, hd]

theorem cleanHeaderIPLDs_resetValidation (db : Db) :
    cleanHeaderIPLDs act P (resetValidation R db) = resetValidation R (cleanHeaderIPLDs act P db) := by
  have hk : keysOf (db.eth.resetHeaders R).headerCids HeaderCid.mhKey (P ·.blockNumber) =
      keysOf db.eth.headerCids HeaderCid.mhKey (P ·.blockNumber) :=
    funext fun _ => EthTables.anyRow_resetRow R (resetRow_mhKey R) (p := (P ·.blockNumber))
      (fun h => congrArg P (resetRow_blockNumber R h)) _
  show (resetValidation R db).deleteBlocks act
    (keysOf (db.eth.resetHeaders R).headerCids HeaderCid.mhKey (P ·.blockNumber)) = _
  rw [hk]
  exact deleteBlocks_resetValidation R act _ db

theorem cleanHeaderMetaData_resetValidation (db : Db) :
    cleanHeaderMetaData P (resetValidation R db) = resetValidation R (cleanHeaderMetaData P db) := by
  simp only [cleanHeaderMetaData, resetValidation, EthTables.dropHeaders_resetHeaders R _
    (p := (P ·.blockNumber)) fun h => congrArg P (resetRow_blockNumber R h)]

/-- **Every statement commutes with the reset.** No statement of any kind reads
`times_validated`, and none writes it. -/
theorem cleanStatements_resetValidation (t : DataType) {stmts : List (Db → Db)}
    (h : cleanStatements act P t = some stmts) :
    ∀ f ∈ stmts, ∀ db, f (resetValidation R db) = resetValidation R (f db) := by
  have hH := EthTables.ofHeaders_resetHeaders R
  have hT := EthTables.ofTransactions_resetHeaders R
  have hS := EthTables.ofStates_resetHeaders R
  exact forall_cleanStatements (Q := fun f => ∀ db, f (resetValidation R db) = resetValidation R (f db))
    (fun _ => cleanIPLDsOf_resetValidation R act P _ _ (fun _ => rfl) (fun e => hS e P))
    (fun _ => cleanIPLDsOf_resetValidation R act P _ _ (fun _ => rfl) (fun e => hH e P))
    (fun _ => cleanIPLDsOf_resetValidation R act P _ _ (fun _ => rfl) (fun e => hT e P))
    (fun _ => cleanIPLDsOf_resetValidation R act P _ _ (fun _ => rfl) (fun e => hH e P))
    (fun _ => cleanIPLDsOf_resetValidation R act P _ _ (fun _ => rfl) (fun e => hH e P))
    (fun _ => cleanHeaderIPLDs_resetValidation R act P)
    (fun _ => cleanMetaDataOf_resetValidation R P _ _ (EthTables.dropStorage_resetHeaders R)
      (fun e => hS e P))
    (fun _ => cleanMetaDataOf_resetValidation R P _ _ (EthTables.dropState_resetHeaders R)
      (fun e => hH e P))
    (fun _ => cleanMetaDataOf_resetValidation R P _ _ (EthTables.dropReceipts_resetHeaders R)
      (fun e => hT e P))
    (fun _ => cleanMetaDataOf_resetValidation R P _ _ (EthTables.dropTransactions_resetHeaders R)
      (fun e => hH e P))
    (fun _ => cleanMetaDataOf_resetValidation R P _ _ (EthTables.dropUncles_resetHeaders R)
      (fun e => hH e P))
    (fun _ => cleanHeaderMetaData_resetValidation R P)
    h

end Statements

section Runs

variable (R : Nat → Bool) (act : KeyAction) (t : DataType)

theorem commutes_cleanWhere (c : Bool) (P : Nat → Bool) :
    Commutes (resetValidation R) (cleanWhere act c P t) := by
  unfold cleanWhere
  split
  · exact Commutes.guard _ c (Commutes.execAll _ (cleanStatements_resetValidation R act P t ‹_›))
  · exact Commutes.of_error _

theorem commutes_cleanRanges : ∀ rngs : List Range,
    Commutes (resetValidation R) (cleanRanges act t rngs)
  | [] => fun _ => rfl
  | _ :: rngs => (commutes_cleanWhere R act t _ _).bind (commutes_cleanRanges rngs)

/-- The deferred check reads `mh_key` and `public.blocks`, which the reset keeps. -/
theorem commitCheck_resetValidation_resetValidation (d d' : Db) :
    act.commitCheck (resetValidation R d) (resetValidation R d') = act.commitCheck d d' := by
  cases act
  · rfl
  · simp only [KeyAction.commitCheck, resetValidation, rowKeys_resetHeaders]

/-- **`Clean` does not see the reset.** Whatever fails, `Clean` on a database whose headers were
reset returns what it returns on the database, and leaves the reset of what it leaves. -/
theorem Clean_resetValidation (rngs : List Range) (db : Db) (fs : List Bool) :
    Clean act rngs t (resetValidation R db) fs =
      ((Clean act rngs t db fs).1, resetValidation R (Clean act rngs t db fs).2) := by
  unfold Clean
  rw [transact_map (commutes_cleanRanges R act t rngs)
    (commitCheck_resetValidation_resetValidation R act)]
  generalize transact .db act.commitCheck (cleanRanges act t rngs) db fs = r
  obtain ⟨_ | _, _⟩ := r <;> rfl

end Runs

/-- Whether `ResetValidation` over `rngs` fails, given the outcomes of its statements: at a range
whose bounds do not convert, at `Begin`, at one of its `UPDATE`s, or at `Commit`. -/
def resetFails (rngs : List Range) (fs : List Bool) : Bool :=
  !rngs.all rangeConverts || nextFails fs || (fs.tail.take rngs.length).any id ||
    nextFails (fs.tail.drop rngs.length)

theorem runAll_resetValidation : ∀ (rngs : List Range) (db : Db),
    runAll (rngs.map fun rng => resetValidation (inRange rng)) db =
      resetValidation (inAnyRange rngs) db
  | [], db => (resetValidation_false db).symm
  | rng :: rngs, db => by
      rw [List.map_cons, runAll_cons, runAll_resetValidation rngs, ← comp_resetValidation]
      rfl

/-- Over ranges that convert, the loop of `ResetValidation` sends its `UPDATE`s one after
another. -/
theorem resetRanges_eq_execAll : ∀ {rngs : List Range}, (∀ rng ∈ rngs, rangeConverts rng = true) →
    ∀ tx, resetRanges rngs tx = Tx.execAll .db (rngs.map fun rng => resetValidation (inRange rng)) tx
  | [], _, _ => rfl
  | rng :: _, hv, tx => by
      rw [resetRanges, Tx.guard, if_pos (hv rng (List.mem_cons_self _ _)), List.map_cons,
        Tx.execAll]
      congr 1
      exact funext (resetRanges_eq_execAll fun r hr => hv r (List.mem_cons_of_mem rng hr))

/-- Whether `ResetValidation` fails depends on its ranges and the outcomes of its statements
alone: the deferred check always accepts the reset. -/
theorem ResetValidation_eq (act : KeyAction) (rngs : List Range) (db : Db) (fs : List Bool) :
    ResetValidation act rngs db fs = if resetFails rngs fs then (.error .db, db)
      else (.ok (), resetValidation (inAnyRange rngs) db) := by
  by_cases hv : ∀ rng ∈ rngs, rangeConverts rng = true
  · have hc := commitCheck_resetValidation act db (inAnyRange rngs)
    have hall : rngs.all rangeConverts = true := List.all_eq_true.mpr hv
    cases h₁ : nextFails fs <;> cases h₂ : (fs.tail.take rngs.length).any id <;>
      simp [ResetValidation, transact, resetFails, resetRanges_eq_execAll hv, Tx.execAll_eq,
        runAll_resetValidation, h₁, h₂, hc, hall]
    -- what is left is the outcome of `Commit`
    split_ifs <;> rfl
  · have hall : rngs.all rangeConverts = false := by simpa using hv
    simp [ResetValidation_unconverted act rngs db (by simpa using hv), resetFails, hall]

/-- **Resetting validation and cleaning are independent.** Whatever fails in either,
`ResetValidation` followed by `Clean` returns what `Clean` alone returns, and leaves what `Clean`
followed by `ResetValidation` leaves, under either blob reference. -/
theorem Clean_after_ResetValidation (act : KeyAction) (rngs rngs' : List Range) (t : DataType)
    (db : Db) (fs gs : List Bool) :
    Clean act rngs t (ResetValidation act rngs' db gs).2 fs =
      ((Clean act rngs t db fs).1, (ResetValidation act rngs' (Clean act rngs t db fs).2 gs).2) := by
  rw [ResetValidation_eq, ResetValidation_eq]
  split
  · rfl
  · exact Clean_resetValidation _ act t rngs db fs

end Eth
end IpldEthIndexer
