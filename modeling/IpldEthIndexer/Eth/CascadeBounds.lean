import IpldEthIndexer.Eth.Cascade

/-!
# What a cascading clean removes

Under `KeyAction.cascade` a blob statement deletes, with its blobs, every row that references
one of them and everything below those rows, so a `Clean` can remove more than its scope
(`forkDb_Clean_cascade_beyond_scope`). This module bounds what it removes, for every database.

* **From above.** Every statement deletes a row only together with the rows below it
  (`KeepsParents`). The last statement of each kind deletes the scope of that kind in the state
  it finds (`cleanStatements_last`), and on such a state the scope of the start contains
  no more than the scope of what is left. So a successful `Clean` removes at least its whole
  scope, whichever the blob reference.
* **From below.** The blobs a cascading statement deletes are blobs of the scope of the start,
  and its joins select rows of that scope only. A row outside the scope whose blob, and the
  blobs of whose parents, are no blob of the scope is never selected, so it survives: the
  tables keep at least the rows that deleting the blobs of the scope would leave of the rows
  outside it. `public.blocks` keeps at least the blobs outside the scope.

**Results.**
* `withoutScope_shrunk_withoutScope`: on a state that kept the parents of its rows, the scope of
  the start contains no more than that of the state.
* `cleanEffect_shrunk_withoutScope`: a clean removes at least its scope, whatever the blob
  reference.
* `rangesEffect_shrunk_withoutScope`: the loop of `Clean` removes the scope of every range.
* `Clean_cascade_bounds`: what a successful cascading `Clean` leaves, from below and above.
* `Clean_cascade_again`: a cascading `Clean` run again changes nothing, since what the first
  left has no row in the scope.
-/

namespace IpldEthIndexer
namespace Eth

open Postgres

/-! ## Sublists of filters -/

theorem sublist_filter_of_forall {α : Type} {l' l : List α} {q : α → Bool} (h : l'.Sublist l)
    (hq : ∀ x ∈ l', q x = true) : l'.Sublist (l.filter q) :=
  List.filter_eq_self.mpr hq ▸ h.filter q

theorem filter_sublist_filter {α : Type} {l' l : List α} {q' q : α → Bool} (h : l'.Sublist l)
    (hq : ∀ x ∈ l', q' x = true → q x = true) : (l'.filter q').Sublist (l.filter q) :=
  sublist_filter_of_forall ((List.filter_sublist l').trans h) fun x hx =>
    let ⟨hx, hq'⟩ := List.mem_filter.mp hx
    hq x hx hq'

theorem anyRow_mono {α : Type} {rows' rows : List α} {col : α → Nat} {p' p : α → Bool} {v : Nat}
    (hr : rows' ⊆ rows) (hp : ∀ d ∈ rows', p' d = true → p d = true)
    (h : anyRow rows' col p' v = true) : anyRow rows col p v = true :=
  let ⟨d, hd, hc, hd'⟩ := anyRow_eq_true.mp h
  anyRow_eq_true.mpr ⟨d, hr hd, hc, hp d hd hd'⟩

theorem sublist_filter_not {α : Type} {l' l : List α} {p : α → Bool} (h : l'.Sublist l)
    (hp : ∀ x ∈ l', p x = false) : l'.Sublist (l.filter fun x => !p x) :=
  sublist_filter_of_forall h fun x hx => by rw [hp x hx]; rfl

/-- A row a larger scope does not select is not selected by a smaller one. -/
theorem not_and_of_imp {c a a' : Bool} (h : a = true → a' = true) (h' : (!(c && a')) = true) :
    (!(c && a)) = true := by
  cases a <;> cases c <;> simp_all

theorem false_of_not_and {c a a' : Bool} (hc : c = true) (h : a' = true → a = true)
    (h' : (!(c && a)) = true) : a' = false := by
  cases a' <;> cases a <;> simp_all

/-! ## Rows go with the rows below them -/

/-- Each child in `children` keeps, in `parents'`, every row of `parents` that is its parent. -/
def KeepsParentsOf {α : Type} (children : List ChildCid) (parents parents' : List α)
    (id : α → Nat) : Prop :=
  ∀ c ∈ children, ∀ d ∈ parents, id d = c.parentId → d ∈ parents'

section KeepsParentsOf

variable {α : Type} {cs cs' : List ChildCid} {ps ps' ps'' : List α} {id : α → Nat}

theorem KeepsParentsOf.refl : KeepsParentsOf cs ps ps id :=
  fun _ _ _ hd _ => hd

theorem KeepsParentsOf.trans (h₁ : KeepsParentsOf cs ps' ps id)
    (h₂ : KeepsParentsOf cs' ps'' ps' id) (hc : cs ⊆ cs') :
    KeepsParentsOf cs ps'' ps id :=
  fun c hcs d hd hid => h₁ c hcs d (h₂ c (hc hcs) d hd hid) hid

theorem KeepsParentsOf.anti (h : KeepsParentsOf cs ps ps' id) (hp : ps'' ⊆ ps) :
    KeepsParentsOf cs ps'' ps' id :=
  fun c hc d hd hid => h c hc d (hp hd) hid

/-- Deleting the parents `p` selects and, by the cascade, their children. -/
theorem KeepsParentsOf.filter (p : α → Bool) :
    KeepsParentsOf (cs.filter fun c => !childOf ps id p c) ps (ps.filter fun d => !p d) id := by
  intro c hc d hd hid
  have hg : childOf ps id p c = false := by simpa using (List.mem_filter.mp hc).2
  exact List.mem_filter.mpr ⟨hd, by simp [childOf_eq_false.mp hg d hd hid]⟩

/-- A child all of whose parents in `ps` are kept in `ps'`, where `p` implies `q`, is a child of
a row `q` selects whenever it is a child of a row `p` selects. -/
theorem KeepsParentsOf.childOf_keeps {c : ChildCid} {p q : α → Bool}
    (h : KeepsParentsOf cs ps ps' id) (hc : c ∈ cs) (hpq : ∀ d ∈ ps', p d = true → q d = true)
    (hp : childOf ps id p c = true) :
    childOf ps' id q c = true :=
  let ⟨d, hd, hid, hpd⟩ := anyRow_eq_true.mp hp
  anyRow_eq_true.mpr ⟨d, h c hc d hd hid, hid, hpq d (h c hc d hd hid) hpd⟩

/-- The children a scope leaves keep the parents it leaves, when a kind that covers the
parents covers the children. -/
theorem KeepsParentsOf.filter_scope {cC cP : Bool} {p : α → Bool} (hcov : cP = true → cC = true) :
    KeepsParentsOf (cs.filter fun c => !(cC && childOf ps id p c)) ps
      (ps.filter fun d => !(cP && p d)) id := by
  intro c hc d hd hid
  refine List.mem_filter.mpr ⟨hd, ?_⟩
  have hq := (List.mem_filter.mp hc).2
  cases hcp : cP
  · rfl
  · cases hp : p d
    · rfl
    · have : childOf ps id p c = true := anyRow_eq_true.mpr ⟨d, hd, hid, hp⟩
      simp [hcov hcp, this] at hq

/-- A child whose parents in `ps` are all kept in `ps'`, where `p` selects none, is selected by
no cascade from `p`. -/
theorem KeepsParentsOf.childOf_false {c : ChildCid} {p : α → Bool}
    (h : KeepsParentsOf cs ps ps' id) (hc : c ∈ cs) (hp : ∀ d ∈ ps', p d = false) :
    childOf ps id p c = false :=
  childOf_eq_false.mpr fun d hd hid => hp d (h c hc d hd hid)

end KeepsParentsOf

namespace EthTables

/-- Every row of `e'` keeps, in `e'`, each parent it has in `e`: whatever `e'` lost of `e`, it
lost together with the rows below. -/
def KeepsParents (e' e : EthTables) : Prop :=
  KeepsParentsOf e'.uncleCids e.headerCids e'.headerCids HeaderCid.id ∧
  KeepsParentsOf e'.transactionCids e.headerCids e'.headerCids HeaderCid.id ∧
  KeepsParentsOf e'.stateCids e.headerCids e'.headerCids HeaderCid.id ∧
  KeepsParentsOf e'.receiptCids e.transactionCids e'.transactionCids ChildCid.id ∧
  KeepsParentsOf e'.storageCids e.stateCids e'.stateCids ChildCid.id

section KeepsParents

variable {e₁ e₂ e₃ e : EthTables}

theorem KeepsParents.refl (e : EthTables) : e.KeepsParents e :=
  ⟨.refl, .refl, .refl, .refl, .refl⟩

theorem KeepsParents.trans (h₁ : e₁.KeepsParents e₂) (h₂ : e₂.KeepsParents e₃)
    (hs : e₁.Shrunk e₂) : e₁.KeepsParents e₃ :=
  ⟨h₁.1.trans h₂.1 hs.2.1.subset, h₁.2.1.trans h₂.2.1 hs.2.2.1.subset,
    h₁.2.2.1.trans h₂.2.2.1 hs.2.2.2.2.1.subset, h₁.2.2.2.1.trans h₂.2.2.2.1 hs.2.2.2.1.subset,
    h₁.2.2.2.2.trans h₂.2.2.2.2 hs.2.2.2.2.2.subset⟩

/-- Parents kept in `e₂` are kept in every state `e₂` shrank to. -/
theorem KeepsParents.anti (h : e₁.KeepsParents e₂) (hs : e₃.Shrunk e₂) : e₁.KeepsParents e₃ :=
  ⟨h.1.anti hs.1.subset, h.2.1.anti hs.1.subset, h.2.2.1.anti hs.1.subset,
    h.2.2.2.1.anti hs.2.2.1.subset, h.2.2.2.2.anti hs.2.2.2.2.1.subset⟩

end KeepsParents

section Drops

variable (e : EthTables) (p : ChildCid → Bool)

theorem keepsParents_dropStorage : (e.dropStorage p).KeepsParents e :=
  ⟨.refl, .refl, .refl, .refl, .refl⟩

theorem keepsParents_dropReceipts : (e.dropReceipts p).KeepsParents e :=
  ⟨.refl, .refl, .refl, .refl, .refl⟩

theorem keepsParents_dropUncles : (e.dropUncles p).KeepsParents e :=
  ⟨.refl, .refl, .refl, .refl, .refl⟩

theorem keepsParents_dropState : (e.dropState p).KeepsParents e :=
  ⟨.refl, .refl, .refl, .refl, .filter p⟩

theorem keepsParents_dropTransactions : (e.dropTransactions p).KeepsParents e :=
  ⟨.refl, .refl, .refl, .filter p, .refl⟩

theorem keepsParents_dropHeaders (p : HeaderCid → Bool) : (e.dropHeaders p).KeepsParents e :=
  ⟨.filter p, .filter p, .filter p, .filter _, .filter _⟩

theorem keepsParents_dropReferencing (K : MhKey → Bool) : (e.dropReferencing K).KeepsParents e :=
  (keepsParents_dropHeaders _ _).trans (keepsParents_dropUncles _ _ |>.trans
    (keepsParents_dropTransactions _ _ |>.trans (keepsParents_dropReceipts _ _ |>.trans
      (keepsParents_dropState _ _ |>.trans (keepsParents_dropStorage _ _)
        (shrunk_dropState _ _)) (shrunk_dropReceipts _ _)) (shrunk_dropTransactions _ _))
      (shrunk_dropUncles _ _)) (shrunk_dropHeaders _ _)

end Drops

/-! ## The scope of the start and the scope of what is left -/

section Scope

variable {e' e : EthTables} {t : DataType} {P : Nat → Bool} {x : ChildCid}

theorem shrunk_withoutScope (e : EthTables) (t : DataType) (P : Nat → Bool) :
    (e.withoutScope t P).Shrunk e := by
  simp [Shrunk, List.filter_sublist]

/-- The rows outside a scope keep their parents: a parent in the scope would put them in it. -/
theorem keepsParents_withoutScope (e : EthTables) (t : DataType) (P : Nat → Bool) :
    (e.withoutScope t P).KeepsParents e :=
  ⟨.filter_scope (DataType.covers_of_header · _), .filter_scope (DataType.covers_of_header · _),
    .filter_scope (DataType.covers_of_header · _), .filter_scope DataType.covers_of_transaction,
    .filter_scope DataType.covers_of_state⟩

/-- A row that kept its parents belongs to a header `P` selects in the state it is in whenever
it did at the start. -/
theorem ofHeaders_of_keeps {cs : List ChildCid}
    (h : KeepsParentsOf cs e.headerCids e'.headerCids HeaderCid.id) (hx : x ∈ cs)
    (hP : e.ofHeaders P x = true) : e'.ofHeaders P x = true :=
  h.childOf_keeps hx (fun _ _ hp => hp) hP

theorem ofTransactions_of_keeps (h : e'.KeepsParents e) (hx : x ∈ e'.receiptCids)
    (hP : e.ofTransactions P x = true) : e'.ofTransactions P x = true :=
  h.2.2.2.1.childOf_keeps hx (fun _ hd => ofHeaders_of_keeps h.2.1 hd) hP

theorem ofStates_of_keeps (h : e'.KeepsParents e) (hx : x ∈ e'.storageCids)
    (hP : e.ofStates P x = true) : e'.ofStates P x = true :=
  h.2.2.2.2.childOf_keeps hx (fun _ hd => ofHeaders_of_keeps h.2.2.1 hd) hP

/-- **The scope of the start contains no more than the scope of what is left.** On a state that
only lost rows, and each together with the rows below it, a row outside the scope of the state
is outside the scope of the start. -/
theorem withoutScope_shrunk_withoutScope (hs : e'.Shrunk e) (hk : e'.KeepsParents e) :
    (e'.withoutScope t P).Shrunk (e.withoutScope t P) :=
  ⟨hs.1.filter _,
    filter_sublist_filter hs.2.1 fun _ hx => not_and_of_imp (ofHeaders_of_keeps hk.1 hx),
    filter_sublist_filter hs.2.2.1 fun _ hx => not_and_of_imp (ofHeaders_of_keeps hk.2.1 hx),
    filter_sublist_filter hs.2.2.2.1 fun _ hx => not_and_of_imp (ofTransactions_of_keeps hk hx),
    filter_sublist_filter hs.2.2.2.2.1 fun _ hx =>
      not_and_of_imp (ofHeaders_of_keeps hk.2.2.1 hx),
    filter_sublist_filter hs.2.2.2.2.2 fun _ hx => not_and_of_imp (ofStates_of_keeps hk hx)⟩

end Scope

end EthTables

/-! ## Rows no deletion selects -/

namespace EthTables

section Lower

variable {L e : EthTables}

theorem Shrunk.dropStorage {p : ChildCid → Bool} (h : L.Shrunk e)
    (hp : ∀ g ∈ L.storageCids, p g = false) : L.Shrunk (e.dropStorage p) :=
  ⟨h.1, h.2.1, h.2.2.1, h.2.2.2.1, h.2.2.2.2.1, sublist_filter_not h.2.2.2.2.2 hp⟩

theorem Shrunk.dropReceipts {p : ChildCid → Bool} (h : L.Shrunk e)
    (hp : ∀ r ∈ L.receiptCids, p r = false) : L.Shrunk (e.dropReceipts p) :=
  ⟨h.1, h.2.1, h.2.2.1, sublist_filter_not h.2.2.2.1 hp, h.2.2.2.2.1, h.2.2.2.2.2⟩

theorem Shrunk.dropUncles {p : ChildCid → Bool} (h : L.Shrunk e)
    (hp : ∀ u ∈ L.uncleCids, p u = false) : L.Shrunk (e.dropUncles p) :=
  ⟨h.1, sublist_filter_not h.2.1 hp, h.2.2.1, h.2.2.2.1, h.2.2.2.2.1, h.2.2.2.2.2⟩

theorem Shrunk.dropState {p : ChildCid → Bool} (h : L.Shrunk e) (hk : L.KeepsParents e)
    (hp : ∀ s ∈ L.stateCids, p s = false) : L.Shrunk (e.dropState p) :=
  ⟨h.1, h.2.1, h.2.2.1, h.2.2.2.1, sublist_filter_not h.2.2.2.2.1 hp,
    sublist_filter_not h.2.2.2.2.2 fun _ hg => hk.2.2.2.2.childOf_false hg hp⟩

theorem Shrunk.dropTransactions {p : ChildCid → Bool} (h : L.Shrunk e) (hk : L.KeepsParents e)
    (hp : ∀ x ∈ L.transactionCids, p x = false) : L.Shrunk (e.dropTransactions p) :=
  ⟨h.1, h.2.1, sublist_filter_not h.2.2.1 hp,
    sublist_filter_not h.2.2.2.1 fun _ hr => hk.2.2.2.1.childOf_false hr hp, h.2.2.2.2.1,
    h.2.2.2.2.2⟩

theorem Shrunk.dropHeaders {p : HeaderCid → Bool} (h : L.Shrunk e) (hk : L.KeepsParents e)
    (hp : ∀ d ∈ L.headerCids, p d = false) : L.Shrunk (e.dropHeaders p) :=
  ⟨sublist_filter_not h.1 hp, sublist_filter_not h.2.1 fun _ hu => hk.1.childOf_false hu hp,
    sublist_filter_not h.2.2.1 fun _ hx => hk.2.1.childOf_false hx hp,
    sublist_filter_not h.2.2.2.1 fun _ hr =>
      hk.2.2.2.1.childOf_false hr fun _ hx => hk.2.1.childOf_false hx hp,
    sublist_filter_not h.2.2.2.2.1 fun _ hs => hk.2.2.1.childOf_false hs hp,
    sublist_filter_not h.2.2.2.2.2 fun _ hg =>
      hk.2.2.2.2.childOf_false hg fun _ hs => hk.2.2.1.childOf_false hs hp⟩

/-- Deleting blobs none of the rows of `L` references leaves every row of `L`, when `L` holds
the parents of its rows. -/
theorem Shrunk.dropReferencing {K : MhKey → Bool} (h : L.Shrunk e) (hk : L.KeepsParents e)
    (hK : ∀ k ∈ L.rowKeys, K k = false) : L.Shrunk (e.dropReferencing K) := by
  simp only [EthTables.rowKeys, List.mem_append, List.mem_map] at hK
  have h₁ := h.dropStorage fun g hg => hK _ (.inr ⟨g, hg, rfl⟩)
  have h₂ := h₁.dropState (hk.anti (shrunk_dropStorage _ _))
    fun s hs => hK _ (.inl (.inr ⟨s, hs, rfl⟩))
  have h₃ := h₂.dropReceipts fun r hr => hK _ (.inl (.inl (.inr ⟨r, hr, rfl⟩)))
  have h₄ := h₃.dropTransactions (hk.anti ((shrunk_dropReceipts _ _).trans
      ((shrunk_dropState _ _).trans (shrunk_dropStorage _ _))))
    fun x hx => hK _ (.inl (.inl (.inl (.inr ⟨x, hx, rfl⟩))))
  have h₅ := h₄.dropUncles fun u hu => hK _ (.inl (.inl (.inl (.inl (.inr ⟨u, hu, rfl⟩)))))
  exact h₅.dropHeaders (hk.anti ((shrunk_dropUncles _ _).trans ((shrunk_dropTransactions _ _).trans
      ((shrunk_dropReceipts _ _).trans ((shrunk_dropState _ _).trans (shrunk_dropStorage _ _))))))
    fun d hd => hK _ (.inl (.inl (.inl (.inl (.inl ⟨d, hd, rfl⟩)))))

variable {e' : EthTables} {P' P : Nat → Bool} {x : ChildCid}

/-- A join over fewer rows and a smaller range selects less. -/
theorem ofHeaders_mono (hP : ∀ n, P' n = true → P n = true) (hs : e'.headerCids ⊆ e.headerCids)
    (h : e'.ofHeaders P' x = true) : e.ofHeaders P x = true :=
  anyRow_mono hs (fun _ _ hd => hP _ hd) h

theorem ofTransactions_mono (hP : ∀ n, P' n = true → P n = true) (hs : e'.Shrunk e)
    (h : e'.ofTransactions P' x = true) : e.ofTransactions P x = true :=
  anyRow_mono hs.2.2.1.subset (fun _ _ hd => ofHeaders_mono hP hs.1.subset hd) h

theorem ofStates_mono (hP : ∀ n, P' n = true → P n = true) (hs : e'.Shrunk e)
    (h : e'.ofStates P' x = true) : e.ofStates P x = true :=
  anyRow_mono hs.2.2.2.2.1.subset (fun _ _ hd => ofHeaders_mono hP hs.1.subset hd) h

end Lower

end EthTables

/-! ## Statements -/

/-- What holds of every statement of `clean act P t`: each statement is one of the twelve of
`cleaner.go`, on a table that the kind `t` covers. -/
theorem forall_cleanStatements {act : KeyAction} {P : Nat → Bool} {t : DataType}
    {Q : (Db → Db) → Prop}
    (hSI : t.covers .storage = true → Q (cleanStorageIPLDs act P))
    (hStI : t.covers .state = true → Q (cleanStateIPLDs act P))
    (hRI : t.covers .receipt = true → Q (cleanReceiptIPLDs act P))
    (hTI : t.covers .transaction = true → Q (cleanTransactionIPLDs act P))
    (hUI : t.covers .uncle = true → Q (cleanUncleIPLDs act P))
    (hHI : t.covers .header = true → Q (cleanHeaderIPLDs act P))
    (hSM : t.covers .storage = true → Q (cleanStorageMetaData P))
    (hStM : t.covers .state = true → Q (cleanStateMetaData P))
    (hRM : t.covers .receipt = true → Q (cleanReceiptMetaData P))
    (hTM : t.covers .transaction = true → Q (cleanTransactionMetaData P))
    (hUM : t.covers .uncle = true → Q (cleanUncleMetaData P))
    (hHM : t.covers .header = true → Q (cleanHeaderMetaData P))
    {stmts : List (Db → Db)} (h : cleanStatements act P t = some stmts) : ∀ f ∈ stmts, Q f := by
  cases t <;> simp only [cleanStatements, cleanFull, Option.some.injEq, reduceCtorEq] at h <;>
    subst h <;>
    simp only [List.mem_cons, List.not_mem_nil, or_false, forall_eq_or_imp, forall_eq] <;>
    and_intros <;>
    first | exact hSI rfl | exact hStI rfl | exact hRI rfl | exact hTI rfl | exact hUI rfl |
      exact hHI rfl | exact hSM rfl | exact hStM rfl | exact hRM rfl | exact hTM rfl |
      exact hUM rfl | exact hHM rfl

theorem keepsParents_deleteBlocks (act : KeyAction) (K : MhKey → Bool) (db : Db) :
    (db.deleteBlocks act K).eth.KeepsParents db.eth := by
  cases act
  · exact EthTables.keepsParents_dropReferencing _ _
  · exact EthTables.KeepsParents.refl _

/-- Every statement of a clean deletes a row only together with the rows below it. -/
theorem keepsParents_cleanStatements (act : KeyAction) (P : Nat → Bool) (t : DataType)
    {stmts : List (Db → Db)} (h : cleanStatements act P t = some stmts) :
    ∀ f ∈ stmts, ∀ db : Db, (f db).eth.KeepsParents db.eth := by
  have hI : ∀ K : Db → MhKey → Bool, ∀ db : Db,
      (db.deleteBlocks act (K db)).eth.KeepsParents db.eth :=
    fun _ db => keepsParents_deleteBlocks act _ db
  exact forall_cleanStatements (Q := fun f => ∀ db : Db, (f db).eth.KeepsParents db.eth)
    (fun _ => hI _) (fun _ => hI _) (fun _ => hI _) (fun _ => hI _) (fun _ => hI _)
    (fun _ => hI _) (fun _ db => EthTables.keepsParents_dropStorage db.eth _)
    (fun _ db => EthTables.keepsParents_dropState db.eth _)
    (fun _ db => EthTables.keepsParents_dropReceipts db.eth _)
    (fun _ db => EthTables.keepsParents_dropTransactions db.eth _)
    (fun _ db => EthTables.keepsParents_dropUncles db.eth _)
    (fun _ db => EthTables.keepsParents_dropHeaders db.eth _) h

theorem keepsParents_runAll {act : KeyAction} : ∀ {fs : List (Db → Db)},
    (∀ f ∈ fs, Sound act f) → (∀ f ∈ fs, ∀ db : Db, (f db).eth.KeepsParents db.eth) →
      ∀ db : Db, (runAll fs db).eth.KeepsParents db.eth
  | [], _, _, db => .refl db.eth
  | f :: fs, hs, hk, db =>
      (keepsParents_runAll (fun g hg => hs g (List.mem_cons_of_mem f hg))
        (fun g hg => hk g (List.mem_cons_of_mem f hg)) (f db)).trans
        (hk f (List.mem_cons_self f fs) db)
        ((Sound.runAll fun g hg => hs g (List.mem_cons_of_mem f hg)).shrunk (f db))

/-- **A clean removes at least its scope**, whatever the blob reference, and deletes every row
together with the rows below it. -/
theorem cleanEffect_shrunk_withoutScope (act : KeyAction) (P : Nat → Bool) (t : DataType)
    (db : Db) : (cleanEffect act P t db).eth.Shrunk (db.eth.withoutScope t P) ∧
      (cleanEffect act P t db).eth.KeepsParents db.eth := by
  cases ht : t.recognized
  · rw [cleanEffect_unrecognized ht, db.eth.withoutScope_unrecognized ht]
    exact ⟨.refl _, .refl _⟩
  · obtain ⟨pre, last, hst, hl, -⟩ := cleanStatements_last act P ht
    have hs := sound_cleanStatements act P t hst
    have hk := keepsParents_cleanStatements act P t hst
    have hpre : ∀ f ∈ pre, f ∈ pre ++ [last] := fun _ => List.mem_append_left _
    -- the blob deletions before the last statement only lost rows, each with those below it
    have hs' := (Sound.runAll fun f hf => hs f (hpre f hf)).shrunk db
    have hk' := keepsParents_runAll (fun f hf => hs f (hpre f hf)) (fun f hf => hk f (hpre f hf)) db
    simp only [cleanEffect, hst, runAll_append, runAll_cons, runAll_nil, hl]
    exact ⟨EthTables.withoutScope_shrunk_withoutScope hs' hk',
      (EthTables.keepsParents_withoutScope _ _ _).trans hk' (EthTables.shrunk_withoutScope _ _ _)⟩

/-- **The loop of `Clean` removes the scope of every range**, whatever the blob reference. -/
theorem rangesEffect_shrunk_withoutScope (act : KeyAction) (t : DataType) :
    ∀ (rngs : List Range) (db : Db),
      (rangesEffect act t rngs db).eth.Shrunk (db.eth.withoutScope t (inAnyRange rngs)) ∧
        (rangesEffect act t rngs db).eth.KeepsParents db.eth
  | [], db => by
      rw [rangesEffect]
      exact ⟨(EthTables.withoutScope_false).symm ▸ .refl _, .refl _⟩
  | rng :: rngs, db => by
      obtain ⟨hs₁, hk₁⟩ := cleanEffect_shrunk_withoutScope act (inRange rng) t db
      obtain ⟨hs, hk⟩ := rangesEffect_shrunk_withoutScope act t rngs
        (cleanEffect act (inRange rng) t db)
      -- what the first range left kept its parents in what its scope left
      have hk₁' := hk₁.anti (EthTables.shrunk_withoutScope db.eth t (inRange rng))
      refine ⟨?_, hk.trans hk₁ ((sound_rangesEffect act t rngs).shrunk _)⟩
      have := hs.trans (EthTables.withoutScope_shrunk_withoutScope hs₁ hk₁')
      rwa [EthTables.withoutScope_withoutScope] at this

/-! ## The rows a cascading clean keeps -/

/-- A state a cascading clean can reach from `db`, bounded below by the rows `L`: it only lost
rows of `db`, kept every row of `L` with its parents, and kept every blob that `K` does not
select. -/
structure Bounded (db : Db) (L : EthTables) (K : MhKey → Bool) (cur : Db) : Prop where
  shrunk : cur.eth.Shrunk db.eth
  lower : L.Shrunk cur.eth
  parents : L.KeepsParents cur.eth
  blocks : (db.blocks.filter fun k => !K k).Sublist cur.blocks

section Bounded

variable {db cur : Db} {L : EthTables} {K : MhKey → Bool}

/-- A cascading deletion of blobs of `K` keeps the bounds when `L` references none of them. -/
theorem Bounded.deleteBlocks {K' : MhKey → Bool} (h : Bounded db L K cur)
    (hL : ∀ k ∈ L.rowKeys, K k = false) (hK : ∀ k, K' k = true → K k = true) :
    Bounded db L K (cur.deleteBlocks .cascade K') := by
  have hK' : ∀ k, K k = false → K' k = false := fun k hk =>
    Bool.eq_false_iff.mpr fun h' => by simp [hK k h'] at hk
  exact ⟨(cur.eth.shrunk_dropReferencing _).trans h.shrunk,
    h.lower.dropReferencing h.parents fun k hk => hK' k (hL k hk),
    h.parents.anti (cur.eth.shrunk_dropReferencing _),
    sublist_filter_of_forall h.blocks fun k hk => by
      rw [hK' k (by simpa using (List.mem_filter.mp hk).2)]; rfl⟩

/-- A deletion of rows keeps the bounds when it keeps the rows of `L`. -/
theorem Bounded.eth {g : EthTables} (h : Bounded db L K cur) (hs : g.Shrunk cur.eth)
    (hl : L.Shrunk g) : Bounded db L K { cur with eth := g } :=
  ⟨hs.trans h.shrunk, hl, h.parents.anti hs, h.blocks⟩

end Bounded

section Cascade

variable {db : Db} {t : DataType} {P : Nat → Bool} {L : EthTables}
  (hW : L.Shrunk (db.eth.withoutScope t P)) (hK : ∀ k ∈ L.rowKeys, db.eth.scopeKey t P k = false)
include hW hK

/-- Every statement of a cascading clean over part of the range keeps the bounds: its blobs are
blobs of the scope, and its joins select rows of the scope only. -/
theorem bounded_cleanStatements {P' : Nat → Bool} (hP : ∀ n, P' n = true → P n = true)
    {stmts : List (Db → Db)} (hst : cleanStatements .cascade P' t = some stmts) :
    ∀ f ∈ stmts, ∀ cur, Bounded db L (db.eth.scopeKey t P) cur →
      Bounded db L (db.eth.scopeKey t P) (f cur) := by
  -- the rows of `L` lie outside the scope
  have hH := fun d (hd : d ∈ L.headerCids) => (List.mem_filter.mp (hW.1.subset hd)).2
  have hU := fun x (hx : x ∈ L.uncleCids) => (List.mem_filter.mp (hW.2.1.subset hx)).2
  have hT := fun x (hx : x ∈ L.transactionCids) => (List.mem_filter.mp (hW.2.2.1.subset hx)).2
  have hR := fun x (hx : x ∈ L.receiptCids) => (List.mem_filter.mp (hW.2.2.2.1.subset hx)).2
  have hS := fun x (hx : x ∈ L.stateCids) => (List.mem_filter.mp (hW.2.2.2.2.1.subset hx)).2
  have hG := fun x (hx : x ∈ L.storageCids) => (List.mem_filter.mp (hW.2.2.2.2.2.subset hx)).2
  refine forall_cleanStatements
    (Q := fun f => ∀ cur, Bounded db L (db.eth.scopeKey t P) cur →
      Bounded db L (db.eth.scopeKey t P) (f cur)) ?_ ?_ ?_ ?_ ?_ ?_ ?_ ?_ ?_ ?_ ?_ ?_ hst
  -- the blob statements delete blobs of the scope
  · exact fun hc cur h => h.deleteBlocks hK fun k hk => by
      simp [EthTables.scopeKey, hc, keysOf, anyRow_mono h.shrunk.2.2.2.2.2.subset
        (fun _ _ => EthTables.ofStates_mono hP h.shrunk) hk]
  · exact fun hc cur h => h.deleteBlocks hK fun k hk => by
      simp [EthTables.scopeKey, hc, keysOf, anyRow_mono h.shrunk.2.2.2.2.1.subset
        (fun _ _ => EthTables.ofHeaders_mono hP h.shrunk.1.subset) hk]
  · exact fun hc cur h => h.deleteBlocks hK fun k hk => by
      simp [EthTables.scopeKey, hc, keysOf, anyRow_mono h.shrunk.2.2.2.1.subset
        (fun _ _ => EthTables.ofTransactions_mono hP h.shrunk) hk]
  · exact fun hc cur h => h.deleteBlocks hK fun k hk => by
      simp [EthTables.scopeKey, hc, keysOf, anyRow_mono h.shrunk.2.2.1.subset
        (fun _ _ => EthTables.ofHeaders_mono hP h.shrunk.1.subset) hk]
  · exact fun hc cur h => h.deleteBlocks hK fun k hk => by
      simp [EthTables.scopeKey, hc, keysOf, anyRow_mono h.shrunk.2.1.subset
        (fun _ _ => EthTables.ofHeaders_mono hP h.shrunk.1.subset) hk]
  · exact fun hc cur h => h.deleteBlocks hK fun k hk => by
      simp [EthTables.scopeKey, hc, keysOf, anyRow_mono h.shrunk.1.subset (fun _ _ => hP _) hk]
  -- the metadata statements select rows of the scope only
  · exact fun hc cur h => h.eth (cur.eth.shrunk_dropStorage _) (h.lower.dropStorage fun g hg =>
      false_of_not_and hc (EthTables.ofStates_mono hP h.shrunk) (hG g hg))
  · exact fun hc cur h => h.eth (cur.eth.shrunk_dropState _) (h.lower.dropState h.parents
      fun x hx => false_of_not_and hc (EthTables.ofHeaders_mono hP h.shrunk.1.subset) (hS x hx))
  · exact fun hc cur h => h.eth (cur.eth.shrunk_dropReceipts _) (h.lower.dropReceipts fun x hx =>
      false_of_not_and hc (EthTables.ofTransactions_mono hP h.shrunk) (hR x hx))
  · exact fun hc cur h => h.eth (cur.eth.shrunk_dropTransactions _)
      (h.lower.dropTransactions h.parents fun x hx =>
        false_of_not_and hc (EthTables.ofHeaders_mono hP h.shrunk.1.subset) (hT x hx))
  · exact fun hc cur h => h.eth (cur.eth.shrunk_dropUncles _) (h.lower.dropUncles fun x hx =>
      false_of_not_and hc (EthTables.ofHeaders_mono hP h.shrunk.1.subset) (hU x hx))
  · exact fun hc cur h => h.eth (cur.eth.shrunk_dropHeaders _) (h.lower.dropHeaders h.parents
      fun d hd => false_of_not_and hc (hP _) (hH d hd))

theorem bounded_cleanEffect {P' : Nat → Bool} (hP : ∀ n, P' n = true → P n = true) (cur : Db)
    (h : Bounded db L (db.eth.scopeKey t P) cur) :
    Bounded db L (db.eth.scopeKey t P) (cleanEffect .cascade P' t cur) := by
  unfold cleanEffect
  split
  · exact runAll_invariant (bounded_cleanStatements hW hK hP ‹_›) cur h
  · exact h

theorem bounded_rangesEffect : ∀ rngs : List Range,
    (∀ rng ∈ rngs, ∀ n, inRange rng n = true → P n = true) → ∀ cur : Db,
      Bounded db L (db.eth.scopeKey t P) cur →
        Bounded db L (db.eth.scopeKey t P) (rangesEffect .cascade t rngs cur)
  | [], _, _, h => h
  | rng :: rngs, hr, cur, h =>
      bounded_rangesEffect rngs (fun r hr' => hr r (List.mem_cons_of_mem rng hr')) _
        (bounded_cleanEffect hW hK (hr rng (List.mem_cons_self rng rngs)) cur h)

end Cascade

/-- **What a cascading `Clean` removes.** A successful `Clean` under a cascading blob reference
removes every row of the scope of its kind over the headers in some range, and at most the
rows a cascading deletion of the blobs of that scope would take from the rest: the rows
outside the scope that reference such a blob, and the rows below them. From `public.blocks` it
deletes no blob outside the scope. -/
theorem Clean_cascade_bounds (rngs : List Range) (t : DataType) (db : Db) (fs : List Bool)
    (h : (Clean .cascade rngs t db fs).1 = .ok ()) :
    ((db.eth.withoutScope t (inAnyRange rngs)).dropReferencing
        (db.eth.scopeKey t (inAnyRange rngs))).Shrunk (Clean .cascade rngs t db fs).2.eth ∧
      (Clean .cascade rngs t db fs).2.eth.Shrunk (db.eth.withoutScope t (inAnyRange rngs)) ∧
      (db.blocks.filter fun k => !db.eth.scopeKey t (inAnyRange rngs) k).Sublist
        (Clean .cascade rngs t db fs).2.blocks := by
  rw [Clean_ok_state rngs t db h]
  have hL := EthTables.shrunk_dropReferencing (db.eth.withoutScope t (inAnyRange rngs))
    (db.eth.scopeKey t (inAnyRange rngs))
  -- the bounds hold at the start: the rows outside the scope keep their parents
  have h₀ : Bounded db _ (db.eth.scopeKey t (inAnyRange rngs)) db :=
    ⟨.refl _, hL.trans (EthTables.shrunk_withoutScope _ _ _),
      (EthTables.keepsParents_dropReferencing _ _).trans
        (EthTables.keepsParents_withoutScope _ _ _) hL, List.filter_sublist _⟩
  have hb := bounded_rangesEffect hL (fun _ => EthTables.mem_rowKeys_dropReferencing) rngs
    (fun rng hr _ hn => List.any_eq_true.mpr ⟨rng, hr, hn⟩) db h₀
  exact ⟨hb.lower, (rangesEffect_shrunk_withoutScope .cascade t rngs db).1, hb.blocks⟩

theorem forkDb_Clean_cascade_bounds :
    (Clean .cascade [(10, 10)] .transactions forkDb []).1 = .ok () ∧
      ((forkDb.eth.withoutScope .transactions (inAnyRange [(10, 10)])).dropReferencing
          (forkDb.eth.scopeKey .transactions (inAnyRange [(10, 10)]))).Shrunk
        (Clean .cascade [(10, 10)] .transactions forkDb []).2.eth ∧
      (Clean .cascade [(10, 10)] .transactions forkDb []).2.eth.Shrunk
        (forkDb.eth.withoutScope .transactions (inAnyRange [(10, 10)])) ∧
      (forkDb.blocks.filter fun k =>
          !forkDb.eth.scopeKey .transactions (inAnyRange [(10, 10)]) k).Sublist
        (Clean .cascade [(10, 10)] .transactions forkDb []).2.blocks :=
  ⟨rfl, Clean_cascade_bounds [(10, 10)] .transactions forkDb [] rfl⟩

/-! ## Cleaning again -/

theorem EthTables.dropReferencing_of_false {e : EthTables} {K : MhKey → Bool}
    (h : ∀ k, K k = false) : e.dropReferencing K = e := by
  rw [EthTables.dropReferencing, EthTables.dropStorage_of_false fun _ _ => h _,
    EthTables.dropState_of_false fun _ _ => h _, EthTables.dropReceipts_of_false fun _ _ => h _,
    EthTables.dropTransactions_of_false fun _ _ => h _,
    EthTables.dropUncles_of_false fun _ _ => h _,
    EthTables.dropHeaders_of_false fun _ _ => h _]

theorem Db.deleteBlocks_of_false (act : KeyAction) {K : MhKey → Bool} (h : ∀ k, K k = false)
    (db : Db) : db.deleteBlocks act K = db := by
  cases act <;> simp [Db.deleteBlocks, h, EthTables.dropReferencing_of_false h]

/-- A state inside the scope's complement of a larger range has no row in the scope of a
smaller one. -/
theorem EthTables.withoutScope_eq_self {s e : EthTables} {t : DataType} {P' P : Nat → Bool}
    (hP : ∀ n, P' n = true → P n = true) (hs : s.Shrunk (e.withoutScope t P)) :
    s.withoutScope t P' = s := by
  have hse := hs.trans (shrunk_withoutScope e t P)
  ext1
  · exact List.filter_eq_self.mpr fun _ hx =>
      not_and_of_imp (hP _) (List.mem_filter.mp (hs.1.subset hx)).2
  · exact List.filter_eq_self.mpr fun _ hx =>
      not_and_of_imp (ofHeaders_mono hP hse.1.subset) (List.mem_filter.mp (hs.2.1.subset hx)).2
  · exact List.filter_eq_self.mpr fun _ hx =>
      not_and_of_imp (ofHeaders_mono hP hse.1.subset) (List.mem_filter.mp (hs.2.2.1.subset hx)).2
  · exact List.filter_eq_self.mpr fun _ hx =>
      not_and_of_imp (ofTransactions_mono hP hse) (List.mem_filter.mp (hs.2.2.2.1.subset hx)).2
  · exact List.filter_eq_self.mpr fun _ hx => not_and_of_imp (ofHeaders_mono hP hse.1.subset)
      (List.mem_filter.mp (hs.2.2.2.2.1.subset hx)).2
  · exact List.filter_eq_self.mpr fun _ hx =>
      not_and_of_imp (ofStates_mono hP hse) (List.mem_filter.mp (hs.2.2.2.2.2.subset hx)).2

/-- A clean of a state with no row in its scope changes nothing, whatever the blob reference:
its joins select no row and its blob statements no blob. -/
theorem cleanEffect_eq_self (act : KeyAction) (P : Nat → Bool) (t : DataType) {db : Db}
    (h : db.eth.withoutScope t P = db.eth) : cleanEffect act P t db = db := by
  have hm : ∀ {tb : Table} {l : List ChildCid} {q : ChildCid → Bool},
      (∀ x ∈ l, (!(t.covers tb && q x)) = true) → ∀ x ∈ l, t.covers tb = true → q x = false :=
    fun hl x hx hc => false_of_not_and hc id (hl x hx)
  have hH : ∀ d ∈ db.eth.headerCids, t.covers .header = true → P d.blockNumber = false :=
    fun d hd hc => false_of_not_and hc id (List.filter_eq_self.mp (congrArg (·.headerCids) h) d hd)
  have hU := hm (List.filter_eq_self.mp (congrArg (·.uncleCids) h))
  have hT := hm (List.filter_eq_self.mp (congrArg (·.transactionCids) h))
  have hR := hm (List.filter_eq_self.mp (congrArg (·.receiptCids) h))
  have hS := hm (List.filter_eq_self.mp (congrArg (·.stateCids) h))
  have hG := hm (List.filter_eq_self.mp (congrArg (·.storageCids) h))
  unfold cleanEffect
  split
  · rename_i stmts hst
    suffices key : ∀ f ∈ stmts, f db = db from
      runAll_invariant (I := (· = db)) (fun f hf d hd => by rw [hd]; exact key f hf) db rfl
    refine forall_cleanStatements (Q := fun f => f db = db) ?_ ?_ ?_ ?_ ?_ ?_ ?_ ?_ ?_ ?_ ?_ ?_ hst
    all_goals intro hc
    -- the blob statements select no blob
    · exact Db.deleteBlocks_of_false act (fun _ => anyRow_eq_false.mpr fun x hx _ => hG x hx hc) _
    · exact Db.deleteBlocks_of_false act (fun _ => anyRow_eq_false.mpr fun x hx _ => hS x hx hc) _
    · exact Db.deleteBlocks_of_false act (fun _ => anyRow_eq_false.mpr fun x hx _ => hR x hx hc) _
    · exact Db.deleteBlocks_of_false act (fun _ => anyRow_eq_false.mpr fun x hx _ => hT x hx hc) _
    · exact Db.deleteBlocks_of_false act (fun _ => anyRow_eq_false.mpr fun x hx _ => hU x hx hc) _
    · exact Db.deleteBlocks_of_false act (fun _ => anyRow_eq_false.mpr fun x hx _ => hH x hx hc) _
    -- the metadata statements select no row
    all_goals refine (congrArg (fun e => ({ db with eth := e } : Db)) ?_ :)
    · exact EthTables.dropStorage_of_false fun x hx => hG x hx hc
    · exact EthTables.dropState_of_false fun x hx => hS x hx hc
    · exact EthTables.dropReceipts_of_false fun x hx => hR x hx hc
    · exact EthTables.dropTransactions_of_false fun x hx => hT x hx hc
    · exact EthTables.dropUncles_of_false fun x hx => hU x hx hc
    · exact EthTables.dropHeaders_of_false fun x hx => hH x hx hc
  · rfl

/-- The loop of `Clean` changes nothing on a state outside the scope of a range containing all
of its ranges. -/
theorem rangesEffect_eq_self (act : KeyAction) (t : DataType) {P : Nat → Bool} {e : EthTables}
    {db : Db} (hs : db.eth.Shrunk (e.withoutScope t P)) : ∀ rngs : List Range,
      (∀ rng ∈ rngs, ∀ n, inRange rng n = true → P n = true) → rangesEffect act t rngs db = db
  | [], _ => rfl
  | rng :: rngs, hr => by
      rw [rangesEffect, cleanEffect_eq_self act _ t
        (EthTables.withoutScope_eq_self (hr rng (List.mem_cons_self rng rngs)) hs),
        rangesEffect_eq_self act t hs rngs fun r hr' => hr r (List.mem_cons_of_mem rng hr')]

/-- **A cascading `Clean` run again changes nothing.** After a `Clean` without faults under a
cascading blob reference, whose cascades may have reached beyond its scope, a second `Clean` of
the same ranges and kind leaves the database as the first one left it, whatever fails. -/
theorem Clean_cascade_again (rngs : List Range) (t : DataType) (db : Db) (fs : List Bool) :
    (Clean .cascade rngs t (Clean .cascade rngs t db []).2 fs).2 =
      (Clean .cascade rngs t db []).2 := by
  rcases Clean_cases .cascade rngs t (Clean .cascade rngs t db []).2 fs with
    ⟨e, he⟩ | ⟨-, -, he⟩
  · rw [he]
  · rw [he]
    cases ht : t.recognized
    · exact rangesEffect_unrecognized ht _ _
    · by_cases hv : ∀ rng ∈ rngs, rangeConverts rng = true
      · -- the first run committed, and left no row of the scope of any of its ranges
        have h₁ : (Clean .cascade rngs t db []).2 = rangesEffect .cascade t rngs db := by
          rw [Clean_nil .cascade rngs t db ht hv]
          rfl
        rw [h₁]
        exact rangesEffect_eq_self .cascade t
          (rangesEffect_shrunk_withoutScope .cascade t rngs db).1 rngs
          fun rng hr _ hn => List.any_eq_true.mpr ⟨rng, hr, hn⟩
      · -- a range that does not convert fails the second run too
        obtain ⟨e, he'⟩ := Clean_unconverted .cascade rngs t _ ht (by simpa using hv) fs
        exact (Prod.ext_iff.mp (he.symm.trans he')).2

end Eth
end IpldEthIndexer
