import IpldEthIndexer.Eth.Cascade

/-!
# Cleans of two kinds, in either order

Two cleans, of any kinds and over any sets of headers, remove together what each removes from
the tables as they were before both: a row that survives the first clean still has the ancestors
the second clean joins through, since a kind that removes rows of a parent table removes the
rows of its child tables too (`DataType.covers_of_header` and its siblings). Under a
non-cascading blob reference two cleans therefore commute, on `eth` and on `public.blocks`.

**Results.**
* `withoutScope_comm`: removing the scope of `t` over `P` and the scope of `t'` over `Q` leaves
  the same rows in either order.
* `cleanEffect_deferredCheck_comm`: the same for whole cleans, blobs included.
* `Clean_comm`: two successful `Clean`s, of any kinds over any ranges, leave the same database in
  either order.
-/

namespace IpldEthIndexer
namespace Eth

open Postgres

section Survivors

variable {α : Type} {rows : List α} {c c' : Bool} {SP SP' SQ SQ' : α → Bool}

theorem filter_comm_of (hs : ∀ x ∈ rows, (c && SP x) = false → SQ' x = SQ x)
    (hs' : ∀ x ∈ rows, (c' && SQ x) = false → SP' x = SP x) :
    (rows.filter fun x => !(c && SP x)).filter (fun x => !(c' && SQ' x)) =
      (rows.filter fun x => !(c' && SQ x)).filter (fun x => !(c && SP' x)) := by
  rw [filter_survivors_of hs, filter_survivors_of hs']
  exact List.filter_congr fun _ _ => Bool.and_comm _ _

/-- A blob that no row of the first deletion references is referenced by a row of the second
among the survivors exactly when it is in the whole table. -/
theorem keysOf_survivors_of {mk : α → MhKey} {k : MhKey}
    (hk : (c && keysOf rows mk SP k) = false)
    (hs : ∀ x ∈ rows, (c && SP x) = false → SQ' x = SQ x) :
    keysOf (rows.filter fun x => !(c && SP x)) mk SQ' k = keysOf rows mk SQ k := by
  rw [keysOf, anyRow_filter]
  refine anyRow_congr fun x hx hkx => ?_
  have hp : (c && SP x) = false := by
    cases c
    · rfl
    · rw [Bool.true_and] at hk ⊢
      exact anyRow_eq_false.mp hk x hx hkx
  rw [hp, hs x hx hp]
  rfl

end Survivors

namespace EthTables

variable {e : EthTables} {t : DataType} {P Q : Nat → Bool}

/-- **Two scopes in either order.** Removing the scope of kind `t` over the headers `P` selects
and then the scope of kind `t'` over those `Q` selects leaves the rows that removing them in the
other order leaves. -/
theorem withoutScope_comm (t' : DataType) :
    (e.withoutScope t P).withoutScope t' Q = (e.withoutScope t' Q).withoutScope t P := by
  ext1
  · exact filter_comm_of (fun _ _ _ => rfl) fun _ _ _ => rfl
  · exact filter_comm_of (fun _ _ => ofHeaders_survivor .uncle)
      fun _ _ => ofHeaders_survivor .uncle
  · exact filter_comm_of (fun _ _ => ofHeaders_survivor .transaction)
      fun _ _ => ofHeaders_survivor .transaction
  · exact filter_comm_of (fun _ _ => ofTransactions_survivor) fun _ _ => ofTransactions_survivor
  · exact filter_comm_of (fun _ _ => ofHeaders_survivor .state)
      fun _ _ => ofHeaders_survivor .state
  · exact filter_comm_of (fun _ _ => ofStates_survivor) fun _ _ => ofStates_survivor

/-- A blob that the first scope does not reference is a blob of the second scope after the first
clean exactly when it is before. -/
theorem scopeKey_survivor (t' : DataType) {k : MhKey} (hk : e.scopeKey t P k = false) :
    (e.withoutScope t P).scopeKey t' Q k = e.scopeKey t' Q k := by
  simp only [scopeKey, Bool.or_eq_false_iff] at hk
  obtain ⟨⟨⟨⟨⟨hh, hu⟩, hx⟩, hr⟩, hs⟩, hg⟩ := hk
  simp only [scopeKey, withoutScope_headerCids, withoutScope_uncleCids,
    withoutScope_transactionCids, withoutScope_receiptCids, withoutScope_stateCids,
    withoutScope_storageCids]
  rw [keysOf_survivors_of hh fun _ _ _ => rfl,
    keysOf_survivors_of hu fun _ _ => ofHeaders_survivor .uncle,
    keysOf_survivors_of hx fun _ _ => ofHeaders_survivor .transaction,
    keysOf_survivors_of hr fun _ _ => ofTransactions_survivor,
    keysOf_survivors_of hs fun _ _ => ofHeaders_survivor .state,
    keysOf_survivors_of hg fun _ _ => ofStates_survivor]

end EthTables

/-- **Cleans of two kinds commute.** Under a non-cascading blob reference, a clean of kind `t`
over the headers `P` selects and a clean of kind `t'` over those `Q` selects leave the same
database in either order. -/
theorem cleanEffect_deferredCheck_comm (P Q : Nat → Bool) (t t' : DataType) (db : Db) :
    cleanEffect .deferredCheck Q t' (cleanEffect .deferredCheck P t db) =
      cleanEffect .deferredCheck P t (cleanEffect .deferredCheck Q t' db) := by
  simp only [cleanEffect_deferredCheck]
  rw [EthTables.withoutScope_comm t', List.filter_filter, List.filter_filter]
  congr 1
  refine List.filter_congr fun k _ => ?_
  cases hp : db.eth.scopeKey t P k <;> cases hq : db.eth.scopeKey t' Q k <;>
    simp [EthTables.scopeKey_survivor, hp, hq]

/-- **Two `Clean`s in either order.** Under a non-cascading blob reference, when a `Clean` of
kind `t` over `rngs` followed by one of kind `t'` over `rngs'` succeeds, and so does the other
order, both orders leave the same database, whatever the kinds and ranges. -/
theorem Clean_comm (rngs rngs' : List Range) (t t' : DataType) (db : Db)
    (fs₁ fs₂ gs₁ gs₂ : List Bool)
    (h₁ : (Clean .deferredCheck rngs t db fs₁).1 = .ok ())
    (h₂ : (Clean .deferredCheck rngs' t' (Clean .deferredCheck rngs t db fs₁).2 fs₂).1 = .ok ())
    (h₃ : (Clean .deferredCheck rngs' t' db gs₁).1 = .ok ())
    (h₄ : (Clean .deferredCheck rngs t (Clean .deferredCheck rngs' t' db gs₁).2 gs₂).1 = .ok ()) :
    (Clean .deferredCheck rngs' t' (Clean .deferredCheck rngs t db fs₁).2 fs₂).2 =
      (Clean .deferredCheck rngs t (Clean .deferredCheck rngs' t' db gs₁).2 gs₂).2 := by
  rw [Clean_ok_state _ _ _ h₂, Clean_ok_state _ _ _ h₄, Clean_ok_state _ _ _ h₁,
    Clean_ok_state _ _ _ h₃]
  simp only [rangesEffect_deferredCheck]
  exact cleanEffect_deferredCheck_comm _ _ t t' db

theorem distinctDb_Clean_comm :
    (Clean .deferredCheck [(10, 10)] .transactions distinctDb []).1 = .ok () ∧
      (Clean .deferredCheck [(11, 11)] .headers
        (Clean .deferredCheck [(10, 10)] .transactions distinctDb []).2 []).1 = .ok () ∧
      (Clean .deferredCheck [(11, 11)] .headers distinctDb []).1 = .ok () ∧
      (Clean .deferredCheck [(10, 10)] .transactions
        (Clean .deferredCheck [(11, 11)] .headers distinctDb []).2 []).1 = .ok () ∧
      (Clean .deferredCheck [(11, 11)] .headers
        (Clean .deferredCheck [(10, 10)] .transactions distinctDb []).2 []).2 =
      (Clean .deferredCheck [(10, 10)] .transactions
        (Clean .deferredCheck [(11, 11)] .headers distinctDb []).2 []).2 :=
  ⟨rfl, rfl, rfl, rfl, Clean_comm [(10, 10)] [(11, 11)] .transactions .headers distinctDb [] [] [] []
    rfl rfl rfl rfl⟩

end Eth
end IpldEthIndexer
