import Mathlib.Data.List.Basic

/-!
# Transactions against PostgreSQL

The cleaner and the repositories reach the database through `sqlx` and `database/sql`:
`Begin` opens a transaction, `Exec` sends one statement inside it, `Rollback` discards it and
`Commit` makes its effect visible. This module models that protocol once, for any type `σ` of
database states.

**Faults.** Whether the server accepts a statement is not decided by the code. Every function
therefore takes the outcomes the server gives, in the order the statements reach it: a `true`
makes that statement fail, and an exhausted list lets every later statement succeed. A theorem
over every such list holds for every pattern of failures.

**Commit.** A commit may still be refused by a deferred constraint: `check init final`
decides it from the state the transaction started from and the state it reached.

**Results.**
* `Computes`, `FaultFree`: what a transaction body does to the state, composed along `>>=`.
* `transact_cases`: a transaction either ends in an error and leaves the state it started
  from, or commits exactly what its body computes.
* `transact_nil`: without faults, it commits exactly when the deferred check accepts.
* `transact_map`: a state map that commutes with every statement of the body, and leaves the
  deferred check alone, commutes with the transaction, whatever fails.
-/

namespace IpldEthIndexer
namespace Postgres

/-- Whether the next statement sent to the server fails. -/
def nextFails (fs : List Bool) : Bool :=
  fs.headD false

@[simp] theorem nextFails_nil : nextFails [] = false := rfl

/-- A transaction in progress: the state its statements have reached, and the outcomes the
server will give to the statements still to come. -/
structure Tx (σ : Type) where
  db : σ
  faults : List Bool

section Tx

variable {σ ε α β : Type}

/-- `tx.Exec` of one statement with effect `f`; a refused statement returns `e`. -/
def Tx.exec (e : ε) (f : σ → σ) (tx : Tx σ) : Except ε (Tx σ) :=
  if nextFails tx.faults then .error e else .ok ⟨f tx.db, tx.faults.tail⟩

/-- Statements sent one after another, returning the first error
(`if err := ...; err != nil { return err }`). -/
def Tx.execAll (e : ε) : List (σ → σ) → Tx σ → Except ε (Tx σ)
  | [], tx => .ok tx
  | f :: fs, tx => Tx.exec e f tx >>= Tx.execAll e fs

/-- A statement whose arguments `database/sql` cannot convert (`c = false`) returns `e` from
`tx.Exec` before anything reaches the server, so it takes no outcome. -/
def Tx.guard (e : ε) (c : Bool) (body : Tx σ → Except ε (Tx σ)) (tx : Tx σ) :
    Except ε (Tx σ) :=
  if c then body tx else .error e

/-- The state a list of statements reaches when none of them fails. -/
def runAll (fs : List (σ → σ)) (db : σ) : σ :=
  fs.foldl (fun d f => f d) db

@[simp] theorem runAll_nil (db : σ) : runAll [] db = db := rfl

@[simp] theorem runAll_cons (f : σ → σ) (fs : List (σ → σ)) (db : σ) :
    runAll (f :: fs) db = runAll fs (f db) := rfl

theorem runAll_append (fs gs : List (σ → σ)) (db : σ) :
    runAll (fs ++ gs) db = runAll gs (runAll fs db) :=
  List.foldl_append _ _ _ _

/-- A property every statement keeps holds after all of them. -/
theorem runAll_invariant {I : σ → Prop} : ∀ {fs : List (σ → σ)},
    (∀ f ∈ fs, ∀ db, I db → I (f db)) → ∀ db, I db → I (runAll fs db)
  | [], _, _, h => h
  | f :: _, hf, db, h => runAll_invariant (fun g hg => hf g (List.mem_cons_of_mem f hg)) (f db)
      (hf f (List.mem_cons_self _ _) db h)

/-- `Begin`, the body, then `Commit`. An error of `Begin`, of the body (after `Rollback`) or of
`Commit` comes back with the state the transaction started from; a commit returns the outcomes
left for the statements sent after it, with the committed state. -/
def transact (e : ε) (check : σ → σ → Bool) (body : Tx σ → Except ε (Tx σ)) (db : σ)
    (fs : List Bool) : Except ε (List Bool) × σ :=
  if nextFails fs then (.error e, db) else
    match body ⟨db, fs.tail⟩ with
    | .error err => (.error err, db)
    | .ok tx =>
        if nextFails tx.faults || !check db tx.db then (.error e, db)
        else (.ok tx.faults.tail, tx.db)

theorem bind_eq_ok {x : Except ε α} {f : α → Except ε β} {b : β} :
    x >>= f = .ok b ↔ ∃ a, x = .ok a ∧ f a = .ok b := by
  cases x <;> simp [bind, Except.bind]

@[simp] theorem ok_bind (a : α) (f : α → Except ε β) : (Except.ok a >>= f) = f a := rfl

@[simp] theorem error_bind (e : ε) (f : α → Except ε β) :
    (Except.error e >>= f) = .error e := rfl

theorem Tx.exec_eq_ok {e : ε} {f : σ → σ} {tx tx' : Tx σ} :
    Tx.exec e f tx = .ok tx' ↔
      nextFails tx.faults = false ∧ tx' = ⟨f tx.db, tx.faults.tail⟩ := by
  unfold Tx.exec
  cases nextFails tx.faults <;> simp [eq_comm]

/-- Every successful run of `body` leaves `F` of the state it started from. -/
def Computes (body : Tx σ → Except ε (Tx σ)) (F : σ → σ) : Prop :=
  ∀ tx tx', body tx = .ok tx' → tx'.db = F tx.db

/-- Without faults `body` succeeds with `F` of the state it started from. -/
def FaultFree (body : Tx σ → Except ε (Tx σ)) (F : σ → σ) : Prop :=
  ∀ db, body ⟨db, []⟩ = .ok ⟨F db, []⟩

variable {body p q : Tx σ → Except ε (Tx σ)} {F G : σ → σ}

theorem Computes.exec (e : ε) (f : σ → σ) : Computes (Tx.exec e f) f := by
  intro tx tx' h
  rw [(Tx.exec_eq_ok.mp h).2]

theorem Computes.bind (hp : Computes p F) (hq : Computes q G) :
    Computes (fun tx => p tx >>= q) (G ∘ F) := by
  intro tx tx' h
  obtain ⟨tx₁, h₁, h₂⟩ := bind_eq_ok.mp h
  rw [hq _ _ h₂, hp _ _ h₁, Function.comp_apply]

/-- A body that never succeeds computes every function. -/
theorem Computes.of_error (e : ε) : Computes (fun _ => (.error e : Except ε (Tx σ))) F := by
  intro _ _ h
  cases h

theorem Computes.execAll (e : ε) :
    ∀ fs : List (σ → σ), Computes (Tx.execAll e fs) (runAll fs)
  | [] => fun _ _ h => by cases h; rfl
  | f :: fs => (Computes.exec e f).bind (Computes.execAll e fs)

theorem Computes.guard (e : ε) (c : Bool) (hb : Computes body F) :
    Computes (Tx.guard e c body) F := by
  cases c
  · exact Computes.of_error e
  · exact hb

theorem FaultFree.exec (e : ε) (f : σ → σ) : FaultFree (Tx.exec e f) f :=
  fun _ => rfl

theorem FaultFree.bind (hp : FaultFree p F) (hq : FaultFree q G) :
    FaultFree (fun tx => p tx >>= q) (G ∘ F) := by
  intro db
  simp only [hp db, ok_bind, hq (F db), Function.comp_apply]

theorem FaultFree.execAll (e : ε) :
    ∀ fs : List (σ → σ), FaultFree (Tx.execAll e fs) (runAll fs)
  | [] => fun _ => rfl
  | f :: fs => (FaultFree.exec e f).bind (FaultFree.execAll e fs)

theorem FaultFree.guard (e : ε) {c : Bool} (hc : c = true) (hb : FaultFree body F) :
    FaultFree (Tx.guard e c body) F := by
  subst hc
  exact hb

/-- Statements sent one after another fail exactly when one of the outcomes given to them is a
failure, whatever the statements do. -/
theorem Tx.execAll_eq (e : ε) : ∀ (fs : List (σ → σ)) (tx : Tx σ),
    Tx.execAll e fs tx = if (tx.faults.take fs.length).any id then .error e
      else .ok ⟨runAll fs tx.db, tx.faults.drop fs.length⟩
  | [], _ => rfl
  | f :: fs, ⟨db, []⟩ => by simp [Tx.execAll, Tx.exec, Tx.execAll_eq e fs]
  | f :: fs, ⟨db, b :: bs⟩ => by
      cases b <;> simp [Tx.execAll, Tx.exec, nextFails, Tx.execAll_eq e fs]

/-- Two lists of statements of one length that reach the same state are indistinguishable. -/
theorem Tx.execAll_congr (e : ε) {fs gs : List (σ → σ)} {tx : Tx σ}
    (hl : fs.length = gs.length)
    (hr : runAll fs tx.db = runAll gs tx.db) : Tx.execAll e fs tx = Tx.execAll e gs tx := by
  rw [Tx.execAll_eq, Tx.execAll_eq, hl, hr]

/-! ## Outcomes taken by a body -/

/-- Every successful run of `body` takes the next `n` outcomes, and all of them are successes. -/
def Consumes (body : Tx σ → Except ε (Tx σ)) (n : Nat) : Prop :=
  ∀ tx tx', body tx = .ok tx' →
    (∀ b ∈ tx.faults.take n, b = false) ∧ tx'.faults = tx.faults.drop n

theorem Consumes.execAll (e : ε) (fs : List (σ → σ)) : Consumes (Tx.execAll e fs) fs.length := by
  intro tx tx' h
  rw [Tx.execAll_eq] at h
  split at h
  · cases h
  · rename_i hany
    cases h
    refine ⟨fun b hb => ?_, rfl⟩
    cases b
    · rfl
    · exact absurd (List.any_eq_true.mpr ⟨true, hb, rfl⟩) hany

theorem Consumes.exec (e : ε) (f : σ → σ) : Consumes (Tx.exec e f) 1 := by
  rintro ⟨db, _ | ⟨b, bs⟩⟩ tx' h <;> obtain ⟨hf, rfl⟩ := Tx.exec_eq_ok.mp h
  · simp
  · simpa [nextFails] using hf

theorem Consumes.bind {n m : Nat} (hp : Consumes p n) (hq : Consumes q m) :
    Consumes (fun tx => p tx >>= q) (n + m) := by
  intro tx tx' h
  obtain ⟨tx₁, h₁, h₂⟩ := bind_eq_ok.mp h
  obtain ⟨hp₁, hp₂⟩ := hp _ _ h₁
  obtain ⟨hq₁, hq₂⟩ := hq _ _ h₂
  rw [hp₂] at hq₁ hq₂
  refine ⟨fun b hb => ?_, by rw [hq₂, List.drop_drop]⟩
  rw [List.take_add, List.mem_append] at hb
  exact hb.elim (hp₁ b) (hq₁ b)

theorem Consumes.guard (e : ε) (c : Bool) {n : Nat} (hb : Consumes body n) :
    Consumes (Tx.guard e c body) n := by
  cases c
  · intro _ _ h
    cases h
  · exact hb

section Outcome

variable (e : ε) (check : σ → σ → Bool) (db : σ) (fs : List Bool)

/-- **All or nothing.** A transaction either ends in an error with the state it started from,
or it commits exactly what its body computes, after the deferred check accepted it. -/
theorem transact_cases (hb : Computes body F) :
    (∃ err, transact e check body db fs = (.error err, db)) ∨
      ∃ fs', check db (F db) = true ∧ transact e check body db fs = (.ok fs', F db) := by
  unfold transact
  cases hf : nextFails fs
  · cases hr : body ⟨db, fs.tail⟩ with
    | error err => exact .inl ⟨err, by simp⟩
    | ok tx =>
        have hdb : tx.db = F db := hb _ _ hr
        simp only [Bool.false_eq_true, ↓reduceIte, hdb]
        cases h₁ : nextFails tx.faults <;> cases h₂ : check db (F db) <;> simp [h₁, h₂]
  · exact .inl ⟨e, by simp⟩

/-- A body that never succeeds makes the transaction fail with the state it started from. -/
theorem transact_of_fails (hb : ∀ tx tx', body tx ≠ .ok tx') :
    ∃ err, transact e check body db fs = (.error err, db) := by
  unfold transact
  split
  · exact ⟨e, rfl⟩
  · cases h : body ⟨db, fs.tail⟩ with
    | error err => exact ⟨err, rfl⟩
    | ok tx => exact absurd h (hb _ _)

/-- A committed transaction took one outcome for `Begin`, `n` for its body and one for
`Commit`, all successes, and returns the outcomes after them. -/
theorem transact_ok_faults {n : Nat} {fs' : List Bool} {db' : σ} (hb : Consumes body n)
    (h : transact e check body db fs = (.ok fs', db')) :
    (∀ b ∈ fs.take (n + 2), b = false) ∧ fs' = fs.drop (n + 2) := by
  have hc := ((Consumes.exec e id).bind hb).bind (Consumes.exec e (id : σ → σ))
  rw [show 1 + n + 1 = n + 2 by omega] at hc
  refine hc ⟨db, fs⟩ ⟨db', fs'⟩ ?_
  unfold transact at h
  split at h
  · cases h
  · rename_i hf
    split at h
    · cases h
    · rename_i tx htx
      split at h
      · cases h
      · rename_i hk
        cases h
        simp only [Bool.or_eq_true, not_or] at hk
        simp [Tx.exec, hf, htx, hk.1]

end Outcome

variable {e : ε} {check : σ → σ → Bool} {db : σ}

/-- Without faults, a transaction commits its body exactly when the deferred check accepts it. -/
theorem transact_nil (hb : FaultFree body F) :
    transact e check body db [] = if check db (F db) then (.ok [], F db) else (.error e, db) := by
  cases hc : check db (F db) <;> simp [transact, hb db, hc]

theorem transact_fault_free (hb : FaultFree body F) (hc : check db (F db) = true) :
    transact e check body db [] = (.ok [], F db) := by
  rw [transact_nil hb, if_pos hc]

/-! ## State maps that commute with a transaction -/

/-- The transaction in progress, on the state seen through `g`. -/
def Tx.map (g : σ → σ) (tx : Tx σ) : Tx σ :=
  ⟨g tx.db, tx.faults⟩

/-- Run on `g` of a state, `body` fails where it fails on the state, and otherwise reaches `g`
of what it reaches there. -/
def Commutes (g : σ → σ) (body : Tx σ → Except ε (Tx σ)) : Prop :=
  ∀ tx, body (tx.map g) = (body tx).map (Tx.map g)

variable {g : σ → σ}

theorem Commutes.exec (e : ε) {f : σ → σ} (hf : ∀ d, f (g d) = g (f d)) :
    Commutes g (Tx.exec e f) := by
  intro tx
  by_cases h : nextFails tx.faults <;> simp [Tx.exec, Tx.map, h, Except.map, hf]

theorem Commutes.bind (hp : Commutes g p) (hq : Commutes g q) :
    Commutes g (fun tx => p tx >>= q) := by
  intro tx
  simp only [hp tx]
  cases p tx with
  | error => rfl
  | ok a => exact hq a

theorem Commutes.of_error (e : ε) : Commutes g (fun _ => (.error e : Except ε (Tx σ))) :=
  fun _ => rfl

theorem Commutes.execAll (e : ε) : ∀ {fs : List (σ → σ)},
    (∀ f ∈ fs, ∀ d, f (g d) = g (f d)) → Commutes g (Tx.execAll e fs)
  | [], _ => fun _ => rfl
  | f :: _, hf => (Commutes.exec e (hf f (List.mem_cons_self _ _))).bind
      (Commutes.execAll e fun f' hf' => hf f' (List.mem_cons_of_mem f hf'))

theorem Commutes.guard (e : ε) (c : Bool) (hb : Commutes g body) :
    Commutes g (Tx.guard e c body) := by
  cases c
  · exact Commutes.of_error e
  · exact hb

/-- **A map that commutes with the body commutes with the transaction.** When `g` commutes
with every statement of the body and leaves the verdict of the deferred check alone, the
transaction run on `g db` returns what it returns on `db`, and leaves `g` of what it leaves. -/
theorem transact_map (hb : Commutes g body) (hc : ∀ d d', check (g d) (g d') = check d d')
    (db : σ) (fs : List Bool) :
    transact e check body (g db) fs =
      ((transact e check body db fs).1, g (transact e check body db fs).2) := by
  unfold transact
  split
  · rfl
  · rw [show (⟨g db, fs.tail⟩ : Tx σ) = Tx.map g ⟨db, fs.tail⟩ from rfl, hb]
    cases body ⟨db, fs.tail⟩ with
    | error => rfl
    | ok tx =>
        simp only [Except.map, Tx.map, hc]
        split <;> rfl

end Tx

end Postgres
end IpldEthIndexer
