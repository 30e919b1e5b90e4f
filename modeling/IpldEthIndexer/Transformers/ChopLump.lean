import IpldEthIndexer.Postgres.Tx
import IpldEthIndexer.Transformers.CheckedHeaders

/-!
# The `chop_lump` repository

`CatFileChopLumpRepository` (`pkg/transformers/cat_file/chop_lump/repository.go`) stores the
`file` events of the `chop` and `lump` parameters of the cat contract in
`maker.cat_file_chop_lump`, under the header whose logs carried them, and records in
`checked_headers` which headers have been fetched.

**Calls.** `Create` type-asserts each model and inserts it, then upserts the header's flag, all
inside one transaction; `MarkHeaderChecked` sends the upsert alone; `MissingHeaders` runs the left
join of `checked_headers`. The model type is not among the sources: `CatFileChopLumpModel` has
the fields `Create` reads, and a value of any other dynamic type is the name `%T` prints for it.
A run is a list of `Create` and `MarkHeaderChecked` calls, each with the outcomes the server
gives its statements.

**Results.**
* `Create_all_or_nothing`: `Create` inserts one row per model and marks the header, or returns
  an error with the database unchanged.
* `MissingHeaders_run`: after any run, `MissingHeaders` fails exactly when its query does, and
  otherwise lists exactly the unchecked headers of the node in the range; a header is unchecked
  after the run exactly when it was before and no call on it succeeded.
* `catFileChopLump_runCalls`: a run only appends to `cat_file_chop_lump`, the rows of its
  successful `Create` calls in order.
* `MissingHeaders_stored`: every run keeps each stored row's header checked, so `MissingHeaders`
  never returns a header whose events are stored.
* `MissingHeaders_nodup`: `MissingHeaders` lists no header twice.
* `MissingHeaders_markAll`: once every header it returned is marked checked, `MissingHeaders`
  over the same range returns nothing.
-/

namespace IpldEthIndexer
namespace Transformers

open Postgres

/-- `chop_lump.CatFileChopLumpModel`: the fields `Create` inserts. -/
structure CatFileChopLumpModel where
  ilk : String
  what : String
  data : String
  transactionIndex : Nat
  logIndex : Nat
  raw : String
deriving DecidableEq, Repr

/-- An element of `models []interface{}`: a `CatFileChopLumpModel`, or a value of another
dynamic type, named as `%T` prints it. -/
inductive Model
  | catFileChopLump (m : CatFileChopLumpModel)
  | other (typeName : String)
deriving DecidableEq, Repr

/-- A row of `maker.cat_file_chop_lump`. -/
structure CatFileChopLumpRow where
  headerId : Int
  ilk : String
  what : String
  data : String
  txIdx : Nat
  logIdx : Nat
  rawLog : String
deriving DecidableEq, Repr

/-- The row `Create` inserts for a model:
`VALUES($1, $2, $3, $4::NUMERIC, $5, $6, $7)`. -/
def CatFileChopLumpRow.ofModel (headerID : Int) (m : CatFileChopLumpModel) : CatFileChopLumpRow :=
  ⟨headerID, m.ilk, m.what, m.data, m.transactionIndex, m.logIndex, m.raw⟩

/-- The tables the repository reads and writes. -/
structure Db where
  headers : List HeadersRow
  checkedHeaders : CheckedHeaders
  catFileChopLump : List CatFileChopLumpRow

/-- The errors the repository returns. -/
inductive RepositoryError
  /-- An error of the database or of the driver. -/
  | db
  /-- An error built by `fmt.Errorf`. -/
  | message (text : String)
deriving DecidableEq, Repr

/-- `CatFileChopLumpRepository`, through the node of its database, `repository.db.Node.ID`. -/
structure CatFileChopLumpRepository where
  nodeID : String

/-- `fmt.Errorf("model of type %T, not %T", model, CatFileChopLumpModel{})`. -/
def wrongModelError (typeName : String) : RepositoryError :=
  .message ("model of type " ++ typeName ++ ", not chop_lump.CatFileChopLumpModel")

/-- `INSERT into maker.cat_file_chop_lump (header_id, ilk, what, data, tx_idx, log_idx,
raw_log)`. -/
def insertCatFileChopLump (headerID : Int) (m : CatFileChopLumpModel) (db : Db) : Db :=
  { db with catFileChopLump := db.catFileChopLump ++ [CatFileChopLumpRow.ofModel headerID m] }

/-- The upsert of `cat_file_chop_lump_checked` in `public.checked_headers`. -/
def markHeaderChecked (headerID : Int) (db : Db) : Db :=
  { db with checkedHeaders := db.checkedHeaders.upsert headerID }

/-- The loop of `Create` over the models, inside its transaction. -/
def insertModels (headerID : Int) : List Model → Tx Db → Except RepositoryError (Tx Db)
  | [], tx => .ok tx
  | .catFileChopLump m :: models, tx =>
      Tx.exec .db (insertCatFileChopLump headerID m) tx >>= insertModels headerID models
  | .other typeName :: _, _ => .error (wrongModelError typeName)

namespace CatFileChopLumpRepository

/-- `Create(headerID, models)`: the error it returns and the database it leaves. A failed
`Rollback` is not reported, and a failed `Commit` is. -/
def Create (headerID : Int) (models : List Model) (db : Db) (fs : List Bool) :
    Except RepositoryError Unit × Db :=
  match transact .db (fun _ _ => true)
      (fun tx => insertModels headerID models tx >>= Tx.exec .db (markHeaderChecked headerID))
      db fs with
  | (.error e, db') => (.error e, db')
  | (.ok _, db') => (.ok (), db')

/-- `MarkHeaderChecked(headerID)`: one statement, outside any transaction. -/
def MarkHeaderChecked (headerID : Int) (db : Db) (fs : List Bool) :
    Except RepositoryError Unit × Db :=
  if nextFails fs then (.error .db, db) else (.ok (), markHeaderChecked headerID db)

/-- `MissingHeaders(startingBlockNumber, endingBlockNumber)`. -/
def MissingHeaders (repository : CatFileChopLumpRepository)
    (startingBlockNumber endingBlockNumber : Int) (db : Db) (fs : List Bool) :
    Except RepositoryError (List Header) :=
  if nextFails fs then .error .db
  else .ok (missingHeaders repository.nodeID startingBlockNumber endingBlockNumber db.headers
    db.checkedHeaders)

end CatFileChopLumpRepository

open CatFileChopLumpRepository

/-! ## `Create` -/

section Create

variable (headerID : Int)

theorem runAll_insertCatFileChopLump : ∀ (ms : List CatFileChopLumpModel) (db : Db),
    runAll (ms.map (insertCatFileChopLump headerID)) db =
      { db with
        catFileChopLump := db.catFileChopLump ++ ms.map (CatFileChopLumpRow.ofModel headerID) }
  | [], _ => by simp
  | m :: ms, db => by
      simp [runAll_insertCatFileChopLump ms, insertCatFileChopLump]

theorem insertModels_map (ms : List CatFileChopLumpModel) :
    insertModels headerID (ms.map .catFileChopLump) =
      Tx.execAll .db (ms.map (insertCatFileChopLump headerID)) := by
  induction ms with
  | nil => rfl
  | cons m ms ih =>
      funext tx
      simp only [List.map_cons, insertModels, Tx.execAll, ih]

/-- A list holding a model of another type never gets past the loop. -/
theorem insertModels_ne_ok : ∀ {models : List Model},
    (∀ ms : List CatFileChopLumpModel, models ≠ ms.map .catFileChopLump) →
      ∀ tx tx', insertModels headerID models tx ≠ .ok tx'
  | [], h, _, _ => absurd rfl (h [])
  | .other _ :: _, _, _, _ => nofun
  | .catFileChopLump m :: models, h, tx, tx' => by
      have hrest : ∀ ms : List CatFileChopLumpModel, models ≠ ms.map .catFileChopLump :=
        fun ms hms => h (m :: ms) (by rw [hms]; rfl)
      intro hok
      obtain ⟨tx₁, -, h₁⟩ := bind_eq_ok.mp hok
      exact insertModels_ne_ok hrest tx₁ tx' h₁

end Create

/-- What `Create` can do: insert every model and upsert the header's flag, or fail with the
database it started from. -/
theorem Create_cases (headerID : Int) (models : List Model) (db : Db) (fs : List Bool) :
    (∃ ms : List CatFileChopLumpModel, models = ms.map .catFileChopLump ∧
      Create headerID models db fs =
        (.ok (), { db with
          catFileChopLump := db.catFileChopLump ++ ms.map (CatFileChopLumpRow.ofModel headerID)
          checkedHeaders := db.checkedHeaders.upsert headerID })) ∨
    ∃ err, Create headerID models db fs = (.error err, db) := by
  by_cases hm : ∃ ms : List CatFileChopLumpModel, models = ms.map .catFileChopLump
  · obtain ⟨ms, rfl⟩ := hm
    have hb := (Computes.execAll (σ := Db) RepositoryError.db
      (ms.map (insertCatFileChopLump headerID))).bind
        (Computes.exec .db (markHeaderChecked headerID))
    rw [← insertModels_map] at hb
    unfold Create
    rcases transact_cases RepositoryError.db (fun _ _ => true) db fs hb with
      ⟨err, he⟩ | ⟨fs', -, he⟩
    · exact .inr ⟨err, by rw [he]⟩
    · refine .inl ⟨ms, rfl, ?_⟩
      rw [he, Function.comp_apply, runAll_insertCatFileChopLump]
      rfl
  · push_neg at hm
    obtain ⟨err, he⟩ := transact_of_fails RepositoryError.db (fun _ _ => true) db fs
      fun tx tx' hok => by
        obtain ⟨tx₁, h₁, -⟩ := bind_eq_ok.mp hok
        exact insertModels_ne_ok headerID hm tx tx₁ h₁
    exact .inr ⟨err, by unfold Create; rw [he]⟩

/-- **`Create` is all or nothing.** Whatever fails, `Create` either returns `nil` after
inserting one `cat_file_chop_lump` row per model, all of them `CatFileChopLumpModel`s, and
setting the header's flag, or it returns an error with the database it started from: a model of
another type rolls back the rows inserted before it and leaves the header unmarked. -/
theorem Create_all_or_nothing (headerID : Int) (models : List Model) (db : Db) (fs : List Bool) :
    (∃ ms : List CatFileChopLumpModel, models = ms.map .catFileChopLump ∧
      Create headerID models db fs =
        (.ok (), { db with
          catFileChopLump := db.catFileChopLump ++ ms.map (CatFileChopLumpRow.ofModel headerID)
          checkedHeaders := db.checkedHeaders.upsert headerID }) ∧
      (Create headerID models db fs).2.checkedHeaders.flag headerID = some true) ∨
    ∃ err, Create headerID models db fs = (.error err, db) := by
  rcases Create_cases headerID models db fs with ⟨ms, hms, he⟩ | he
  · refine .inl ⟨ms, hms, he, ?_⟩
    rw [he, CheckedHeaders.flag_upsert, if_pos rfl]
  · exact .inr he

/-! ## Runs of calls -/

/-- A call of the repository that writes, with the outcomes the server gives its statements. -/
inductive Call
  | create (headerID : Int) (models : List Model) (faults : List Bool)
  | markHeaderChecked (headerID : Int) (faults : List Bool)

namespace Call

/-- The header a call is about. -/
def headerID : Call → Int
  | .create h _ _ | .markHeaderChecked h _ => h

/-- The error a call returns and the database it leaves. -/
def run : Call → Db → Except RepositoryError Unit × Db
  | .create h models fs, db => Create h models db fs
  | .markHeaderChecked h fs, db => MarkHeaderChecked h db fs

/-- Every call either fails and leaves the database, or succeeds having upserted its header's
flag, changing no header and no other flag. -/
theorem run_cases (c : Call) (db : Db) :
    (∃ err, c.run db = (.error err, db)) ∨
      ∃ rows, c.run db = (.ok (), { db with
        catFileChopLump := rows, checkedHeaders := db.checkedHeaders.upsert c.headerID }) := by
  cases c with
  | create h models fs =>
      rcases Create_cases h models db fs with ⟨_, _, he⟩ | he
      · exact .inr ⟨_, he⟩
      · exact .inl he
  | markHeaderChecked h fs =>
      by_cases hf : nextFails fs
      · exact .inl ⟨.db, by simp [run, MarkHeaderChecked, hf]⟩
      · exact .inr ⟨db.catFileChopLump, by
          simp [run, MarkHeaderChecked, hf, Transformers.markHeaderChecked, headerID]⟩

theorem headers_run (c : Call) (db : Db) : (c.run db).2.headers = db.headers := by
  rcases c.run_cases db with ⟨_, he⟩ | ⟨_, he⟩ <;> rw [he]

/-- A call sets the flag of its header exactly when it succeeds, and no other. -/
theorem flag_run (c : Call) (db : Db) (id : Int) :
    (c.run db).2.checkedHeaders.flag id =
      if (c.headerID == id && (c.run db).1.toBool) then some true
      else db.checkedHeaders.flag id := by
  rcases c.run_cases db with ⟨_, he⟩ | ⟨_, he⟩ <;> rw [he]
  · simp [Except.toBool]
  · by_cases h : c.headerID = id
    · simp [Except.toBool, CheckedHeaders.flag_upsert, h]
    · simp [Except.toBool, CheckedHeaders.flag_upsert, h, Ne.symm h]

end Call

/-- The database after a run of calls. -/
def runCalls : List Call → Db → Db
  | [], db => db
  | c :: cs, db => runCalls cs (c.run db).2

/-- Some call of the run on header `id` succeeded. -/
def markedIn : List Call → Db → Int → Bool
  | [], _, _ => false
  | c :: cs, db, id => (c.headerID == id && (c.run db).1.toBool) || markedIn cs (c.run db).2 id

theorem headers_runCalls : ∀ (calls : List Call) (db : Db),
    (runCalls calls db).headers = db.headers
  | [], _ => rfl
  | c :: cs, db => (headers_runCalls cs _).trans (c.headers_run db)

/-- After a run, a header's flag is set if some call on it succeeded, and is as it was
otherwise. -/
theorem flag_runCalls : ∀ (calls : List Call) (db : Db) (id : Int),
    (runCalls calls db).checkedHeaders.flag id =
      if markedIn calls db id then some true else db.checkedHeaders.flag id
  | [], _, _ => rfl
  | c :: cs, db, id => by
      rw [runCalls, markedIn, flag_runCalls cs, c.flag_run]
      cases markedIn cs (c.run db).2 id <;> cases (c.headerID == id && (c.run db).1.toBool) <;> rfl

/-- **`MissingHeaders` after any run.** After a run of `Create` and `MarkHeaderChecked` calls,
each of which may fail anywhere, `MissingHeaders(s, e)` fails exactly when its query does, and
otherwise lists exactly the headers of the repository's node with `s ≤ block_number ≤ e` whose
flag is not set (no row, or a row with the flag false); and a header's flag is not set after the
run exactly when it was not before and no call on it succeeded. -/
theorem MissingHeaders_run (repository : CatFileChopLumpRepository) (calls : List Call) (db : Db)
    (s e : Int) (fs : List Bool) :
    (∃ hs, MissingHeaders repository s e (runCalls calls db) fs =
        (if nextFails fs then .error .db else .ok hs) ∧
      ∀ x, x ∈ hs ↔ ∃ h ∈ db.headers, x = ⟨h.id, h.blockNumber⟩ ∧
        h.ethNodeFingerprint = repository.nodeID ∧ s ≤ h.blockNumber ∧ h.blockNumber ≤ e ∧
        (runCalls calls db).checkedHeaders.flag h.id ≠ some true) ∧
    ∀ id, ((runCalls calls db).checkedHeaders.flag id ≠ some true ↔
      db.checkedHeaders.flag id ≠ some true ∧ markedIn calls db id = false) := by
  refine ⟨⟨_, rfl, fun x => by rw [mem_missingHeaders, headers_runCalls]⟩, fun id => ?_⟩
  rw [flag_runCalls]
  cases markedIn calls db id <;> simp

/-! ## The rows a run inserts -/

/-- The model a `Create` inserts for an element of `models`, if it is a
`CatFileChopLumpModel`. -/
def Model.catFileChopLump? : Model → Option CatFileChopLumpModel
  | .catFileChopLump m => some m
  | .other _ => none

namespace Call

/-- The rows a call inserts when it succeeds. -/
def rows : Call → List CatFileChopLumpRow
  | .create h models _ => (models.filterMap Model.catFileChopLump?).map (CatFileChopLumpRow.ofModel h)
  | .markHeaderChecked _ _ => []

theorem headerId_of_mem_rows {c : Call} {r : CatFileChopLumpRow} (hr : r ∈ c.rows) :
    r.headerId = c.headerID := by
  cases c with
  | create h models fs =>
      obtain ⟨m, -, rfl⟩ := List.mem_map.mp hr
      rfl
  | markHeaderChecked => cases hr

/-- A call appends its rows to `cat_file_chop_lump` when it succeeds, and leaves the table as it
was when it fails. -/
theorem catFileChopLump_run (c : Call) (db : Db) :
    (c.run db).2.catFileChopLump =
      db.catFileChopLump ++ if (c.run db).1.toBool then c.rows else [] := by
  cases c with
  | create h models fs =>
      rcases Create_cases h models db fs with ⟨ms, rfl, he⟩ | ⟨_, he⟩ <;>
        simp [run, he, Except.toBool, rows, List.filterMap_map, Function.comp_def,
          Model.catFileChopLump?]
  | markHeaderChecked h fs =>
      by_cases hf : nextFails fs <;>
        simp [run, MarkHeaderChecked, hf, Transformers.markHeaderChecked, Except.toBool, rows]

end Call

/-- The rows the successful calls of a run insert, in the order of the calls. -/
def insertedIn : List Call → Db → List CatFileChopLumpRow
  | [], _ => []
  | c :: cs, db => (if (c.run db).1.toBool then c.rows else []) ++ insertedIn cs (c.run db).2

/-- **`cat_file_chop_lump` only grows.** After a run of `Create` and `MarkHeaderChecked` calls,
each of which may fail anywhere, the table holds the rows it held before, followed by the rows
of the successful `Create` calls in the order of the calls: a failed `Create` leaves none of its
rows behind, and no call removes or rewrites a row. -/
theorem catFileChopLump_runCalls : ∀ (calls : List Call) (db : Db),
    (runCalls calls db).catFileChopLump = db.catFileChopLump ++ insertedIn calls db
  | [], _ => (List.append_nil _).symm
  | c :: cs, db => by
      rw [runCalls, insertedIn, catFileChopLump_runCalls cs, c.catFileChopLump_run,
        List.append_assoc]

theorem markedIn_of_mem_insertedIn : ∀ {calls : List Call} {db : Db} {r : CatFileChopLumpRow},
    r ∈ insertedIn calls db → markedIn calls db r.headerId = true
  | c :: cs, db, r, hr => by
      rw [insertedIn, List.mem_append] at hr
      rw [markedIn, Bool.or_eq_true]
      rcases hr with hr | hr
      · split at hr
        · exact .inl (by simp [Call.headerId_of_mem_rows hr, *])
        · cases hr
      · exact .inr (markedIn_of_mem_insertedIn hr)

/-- Every `cat_file_chop_lump` row hangs under a header whose flag is set. -/
def RowsChecked (db : Db) : Prop :=
  ∀ r ∈ db.catFileChopLump, db.checkedHeaders.flag r.headerId = some true

/-- Every run keeps `RowsChecked`: `Create` inserts its rows in the transaction that sets their
header's flag, and no call clears a flag. -/
theorem rowsChecked_runCalls (calls : List Call) {db : Db} (h : RowsChecked db) :
    RowsChecked (runCalls calls db) := by
  intro r hr
  rw [flag_runCalls]
  rw [catFileChopLump_runCalls, List.mem_append] at hr
  rcases hr with hr | hr
  · split <;> [rfl; exact h r hr]
  · rw [if_pos (markedIn_of_mem_insertedIn hr)]

/-- **`MissingHeaders` never returns a header with stored events.** From a database where every
`cat_file_chop_lump` row has its header checked (an empty table, say), after any run of calls,
no header that `MissingHeaders` returns has a row in `cat_file_chop_lump`: the transformer never
fetches the logs of a header twice once their events are stored. -/
theorem MissingHeaders_stored (repository : CatFileChopLumpRepository) (calls : List Call)
    (db : Db) (s e : Int) (fs : List Bool) (h : RowsChecked db) {hs : List Header}
    (hm : MissingHeaders repository s e (runCalls calls db) fs = .ok hs) :
    ∀ x ∈ hs, ∀ r ∈ (runCalls calls db).catFileChopLump, r.headerId ≠ x.id := by
  unfold MissingHeaders at hm
  split at hm
  · cases hm
  · cases hm
    intro x hx r hr hrx
    obtain ⟨hd, -, rfl, -, -, -, hf⟩ := mem_missingHeaders.mp hx
    have hc : (runCalls calls db).checkedHeaders.flag r.headerId = some true :=
      rowsChecked_runCalls calls h r hr
    rw [hrx] at hc
    exact hf hc

/-- Two unchecked headers of node `"node"`, and no events. -/
def twoHeadersDb : Db :=
  ⟨[⟨1, 10, "node"⟩, ⟨2, 11, "node"⟩], ⟨[], List.nodup_nil⟩, []⟩

/-- A `chop` file event. -/
def chopModel : CatFileChopLumpModel :=
  ⟨"ETH-A", "chop", "1000000000000000000000000000", 0, 0, "log"⟩

theorem twoHeadersDb_MissingHeaders_stored :
    RowsChecked twoHeadersDb ∧
      MissingHeaders ⟨"node"⟩ 10 11
        (runCalls [.create 1 [.catFileChopLump chopModel] []] twoHeadersDb) [] = .ok [⟨2, 11⟩] ∧
      ∀ x ∈ [(⟨2, 11⟩ : Header)],
        ∀ r ∈ (runCalls [.create 1 [.catFileChopLump chopModel] []] twoHeadersDb).catFileChopLump,
          r.headerId ≠ x.id :=
  ⟨fun r h => (List.not_mem_nil r h).elim, rfl,
    MissingHeaders_stored ⟨"node"⟩ _ twoHeadersDb 10 11 [] (fun r h => (List.not_mem_nil r h).elim)
      rfl⟩

/-- **`MissingHeaders` lists no header twice.** When `headers.id` is unique, so is the list
`MissingHeaders` returns: `header_id` is unique in `checked_headers`, so the left join meets each
header once. -/
theorem MissingHeaders_nodup (repository : CatFileChopLumpRepository) (s e : Int) (db : Db)
    (fs : List Bool) (hu : (db.headers.map (·.id)).Nodup) {hs : List Header}
    (hm : MissingHeaders repository s e db fs = .ok hs) : hs.Nodup := by
  unfold MissingHeaders at hm
  split at hm
  · cases hm
  · cases hm
    exact missingHeaders_nodup _ hu

theorem twoHeadersDb_MissingHeaders_nodup :
    (twoHeadersDb.headers.map (·.id)).Nodup ∧
      MissingHeaders ⟨"node"⟩ 10 11 twoHeadersDb [] = .ok [⟨1, 10⟩, ⟨2, 11⟩] ∧
      ([⟨1, 10⟩, ⟨2, 11⟩] : List Header).Nodup :=
  ⟨by decide, rfl, MissingHeaders_nodup ⟨"node"⟩ 10 11 twoHeadersDb [] (by decide) rfl⟩

/-- A `MarkHeaderChecked` call for each header of `hs`, every statement accepted. -/
def markAll (hs : List Header) : List Call :=
  hs.map fun h => .markHeaderChecked h.id []

theorem markedIn_markAll : ∀ (hs : List Header) (db : Db) (id : Int),
    markedIn (markAll hs) db id = hs.any (·.id == id)
  | [], _, _ => rfl
  | h :: hs, db, id => by
      rw [markAll, List.map_cons, markedIn, ← markAll, markedIn_markAll hs, List.any_cons]
      simp [Call.headerID, Call.run, MarkHeaderChecked, Except.toBool]

/-- **Marking what `MissingHeaders` returned empties it.** When every header a successful
`MissingHeaders(s, e)` returned is then marked checked, `MissingHeaders(s, e)` returns no header
(or fails): a header the run did not mark was not missing, and no call clears a flag. -/
theorem MissingHeaders_markAll (repository : CatFileChopLumpRepository) (s e : Int) (db : Db)
    (fs gs : List Bool) {hs hs' : List Header}
    (hm : MissingHeaders repository s e db fs = .ok hs)
    (hm' : MissingHeaders repository s e (runCalls (markAll hs) db) gs = .ok hs') : hs' = [] := by
  unfold MissingHeaders at hm hm'
  split at hm
  · cases hm
  split at hm'
  · cases hm'
  cases hm
  cases hm'
  refine List.eq_nil_iff_forall_not_mem.mpr fun x hx => ?_
  obtain ⟨h, hh, rfl, hnode, hs, he, hf⟩ := mem_missingHeaders.mp hx
  rw [headers_runCalls] at hh
  have hold : db.checkedHeaders.flag h.id ≠ some true := fun ht =>
    hf (by rw [flag_runCalls]; split <;> [rfl; exact ht])
  have hin : (⟨h.id, h.blockNumber⟩ : Header) ∈
      missingHeaders repository.nodeID s e db.headers db.checkedHeaders :=
    mem_missingHeaders.mpr ⟨h, hh, rfl, hnode, hs, he, hold⟩
  apply hf
  rw [flag_runCalls, markedIn_markAll]
  exact if_pos (List.any_eq_true.mpr ⟨_, hin, beq_self_eq_true h.id⟩)

theorem twoHeadersDb_MissingHeaders_markAll :
    MissingHeaders ⟨"node"⟩ 10 11 twoHeadersDb [] = .ok [⟨1, 10⟩, ⟨2, 11⟩] ∧
      MissingHeaders ⟨"node"⟩ 10 11 (runCalls (markAll [⟨1, 10⟩, ⟨2, 11⟩]) twoHeadersDb) [] =
        .ok [] ∧ ([] : List Header) = [] :=
  ⟨rfl, rfl, MissingHeaders_markAll ⟨"node"⟩ 10 11 twoHeadersDb [] [] rfl rfl⟩

end Transformers
end IpldEthIndexer
