import GoFight.Data.ProtoFields
import GoFight.Net.MessageFormat

/-!
# Queries and their results

`db_exe`, `db_get_data` and `db_get_data_lite` of `go_db.cpp` over a connection that may be sent
several statements at once.

* `ResultSet`, `QueryReply` — what the server answers to a command: that it failed, or one result for
  each statement, with or without a result set, up to an error or the end;
* `Mysql` — the connection as the client library keeps it, and the result sets it has handed out;
* `dbExe`, `dbGetData`, `dbGetDataLite` — the three functions, pointers that may be `NULL` included;
* `Released` — every result set a call has stored is freed once and nothing is left to be fetched;
* `released_iff` — when a call does that.

`GetReflection` is never `NULL`.  The rows of a result set are as wide as its columns, and the number
of columns is an `unsigned int`.  The log is left out.
-/

namespace GoFight.Data

open GoFight.Net (cint intMax)

/-! ### The client library -/

/-- A stored result set: the names of its columns, and its rows with `NULL` as `none`. -/
structure ResultSet where
  columns : List Bytes
  rows : List (List (Option Bytes))
  width : ∀ row ∈ rows, row.length = columns.length
  fieldCount : columns.length < 4294967296

/-- What the server makes of a command. -/
inductive QueryReply
  | fails
  /-- The result of each statement, and whether the next one failed. -/
  | results (first : Option ResultSet) (later : List (Option ResultSet)) (failed : Bool)

/-- A connection that is open. -/
structure Mysql where
  /-- The result `mysql_store_result` has to take. -/
  current : Option (Option ResultSet)
  /-- The results of the statements behind it, and whether the sequence ends with an error. -/
  later : List (Option ResultSet)
  failed : Bool
  /-- History: how many result sets were stored, and the numbers of those that were freed. -/
  stored : ℕ
  freed : List ℕ

/-- A `MYSQL_RES`, with its number. -/
structure MysqlRes where
  number : ℕ
  set : ResultSet

namespace Mysql

/-- Nothing is left to be fetched. -/
def Idle (db : Mysql) : Prop := db.current = none ∧ db.later = []

instance (db : Mysql) : Decidable db.Idle :=
  decidable_of_iff (db.current.isNone ∧ db.later.isEmpty) (by simp [Idle])

/-- `mysql_query`; a command while results are left is out of sync. -/
def query (db : Mysql) (reply : QueryReply) : ℤ × Mysql :=
  if db.Idle then
    match reply with
    | .fails => (1, db)
    | .results first later failed =>
        (0, { db with current := some first, later := later, failed := failed })
  else (1, db)

/-- `mysql_store_result`. -/
def storeResult (db : Mysql) : Option MysqlRes × Mysql :=
  match db.current with
  | none => (none, db)
  | some none => (none, { db with current := none })
  | some (some set) => (some ⟨db.stored, set⟩, { db with current := none, stored := db.stored + 1 })

/-- `mysql_free_result`, which does nothing with `NULL`. -/
def freeResult (db : Mysql) (res : Option MysqlRes) : Mysql :=
  match res with
  | none => db
  | some res => { db with freed := db.freed ++ [res.number] }

/-- `mysql_next_result`: 0 when there is another result, -1 at the end, 1 on an error. -/
def nextResult (db : Mysql) : ℤ × Mysql :=
  match db.current with
  | some (some _) => (1, db)
  | _ =>
      match db.later with
      | [] => (if db.failed then 1 else -1, { db with failed := false })
      | r :: later => (0, { db with current := some r, later := later })

theorem storeResult_later (db : Mysql) : db.storeResult.2.later = db.later := by
  unfold storeResult
  split <;> rfl

@[simp] theorem freeResult_later (db : Mysql) (res : Option MysqlRes) :
    (db.freeResult res).later = db.later := by
  cases res <;> rfl

theorem nextResult_later {db : Mysql} (h : db.nextResult.1 = 0) :
    db.nextResult.2.later.length < db.later.length := by
  unfold nextResult at h ⊢
  split
  · next hc => simp [hc] at h
  · next hc =>
    cases hl : db.later with
    | nil =>
      simp only [hl] at h
      split at h <;> cases h
    | cons r later => exact Nat.lt_succ_self _

end Mysql

/-! ### `db_exe` -/

/-- The inner `do` loop of `db_exe`. -/
def exeLoop (db : Mysql) : Mysql :=
  let db' := db.storeResult.2.freeResult db.storeResult.1
  if _h : db'.nextResult.1 = 0 then exeLoop db'.nextResult.2 else db'.nextResult.2
termination_by db.later.length
decreasing_by
  have hlater := Mysql.nextResult_later _h
  rwa [Mysql.freeResult_later, Mysql.storeResult_later] at hlater

section Functions

variable (server : Bytes → QueryReply)

/-- `db_exe`: what it returns, and the connection. -/
def dbExe (handle : Option Mysql) (cmd : Option Bytes) : Bool × Option Mysql :=
  match handle, cmd with
  | some db, some cmd =>
      let q := db.query (server cmd)
      if q.1 ≠ 0 then (false, some q.2) else (true, some (exeLoop q.2))
  | _, _ => (false, handle)

/-! ### The row mappers -/

variable {F D : Type*}

/-- A container: the class of the items in its field `id`, if it has one, and these items. -/
structure ProtoDataContainer (F D : Type*) where
  idField : Option Descriptor
  items : List (ProtoData F D)

/-- A message with its descriptor. -/
structure ProtoDataMessage (F D : Type*) where
  descriptor : Descriptor
  value : ProtoData F D

variable (atof : Bytes → D) (toFloat : D → F)

/-- The inner loop over the columns of a row; `false` when a column is no field.  `NULL` is mapped as
an empty text. -/
def mapRow (des : Descriptor) : List (Bytes × Option Bytes) → ProtoData F D → Bool × ProtoData F D
  | [], item => (true, item)
  | (name, cell) :: cells, item =>
      match des.findFieldByName name with
      | none => (false, item)
      | some fdes => mapRow des cells (setProtoData atof toFloat item fdes (cell.getD []))

/-- The columns of a row that the inner loop looks at: `field_num` is an `int`. -/
def ResultSet.cells (set : ResultSet) (row : List (Option Bytes)) : List (Bytes × Option Bytes) :=
  (set.columns.zip row).take (cint set.columns.length).toNat

/-- The rows that the outer loop looks at: `row_num` is an `int`. -/
def ResultSet.fetched (set : ResultSet) : List (List (Option Bytes)) :=
  set.rows.take (cint set.rows.length).toNat

/-- The outer loop of `db_get_data`: a new item for each row. -/
def addRows (des : Descriptor) (set : ResultSet) :
    List (List (Option Bytes)) → List (ProtoData F D) → List (ProtoData F D)
  | [], items => items
  | row :: rows, items =>
      let r := mapRow atof toFloat des (set.cells row) .blank
      if r.1 then addRows des set rows (items ++ [r.2]) else items ++ [r.2]

/-- The outer loop of `db_get_data_lite`: one message for all rows. -/
def overwriteRows (des : Descriptor) (set : ResultSet) :
    List (List (Option Bytes)) → ProtoData F D → ProtoData F D
  | [], data => data
  | row :: rows, data =>
      let r := mapRow atof toFloat des (set.cells row) data
      if r.1 then overwriteRows des set rows r.2 else r.2

/-- The loop behind `free_result`: a later result is freed where it is `NULL`. -/
def drain (db : Mysql) : Mysql :=
  if _h : db.nextResult.1 = 0 then
    let r := db.nextResult.2.storeResult
    drain (if r.1.isNone then r.2.freeResult r.1 else r.2)
  else db.nextResult.2
termination_by db.later.length
decreasing_by
  have hlater := Mysql.nextResult_later _h
  rw [← Mysql.storeResult_later db.nextResult.2] at hlater
  split
  · rwa [Mysql.freeResult_later]
  · exact hlater

/-- `db_get_data`: what it returns, the connection and the container.  A query that fails is only
logged. -/
def dbGetData (handle : Option Mysql) (cmd : Option Bytes)
    (data : Option (ProtoDataContainer F D)) :
    Bool × Option Mysql × Option (ProtoDataContainer F D) :=
  match handle, cmd, data with
  | some db, some cmd, some data =>
      match data.idField with
      | none => (false, some db, some data)
      | some itemDes =>
          match (db.query (server cmd)).2.storeResult with
          | (some res, db) =>
              (true, some (drain (db.freeResult (some res))),
                some { data with
                  items := addRows atof toFloat itemDes res.set res.set.fetched data.items })
          | (none, db) => (true, some (drain db), some data)
  | _, _, _ => (false, handle, data)

/-- `db_get_data_lite`. -/
def dbGetDataLite (handle : Option Mysql) (cmd : Option Bytes)
    (data : Option (ProtoDataMessage F D)) :
    Bool × Option Mysql × Option (ProtoDataMessage F D) :=
  match handle, cmd, data with
  | some db, some cmd, some data =>
      match (db.query (server cmd)).2.storeResult with
      | (some res, db) =>
          (true, some (drain (db.freeResult (some res))),
            some { data with
              value := overwriteRows atof toFloat data.descriptor res.set res.set.fetched
                data.value })
      | (none, db) => (true, some (drain db), some data)
  | _, _, _ => (false, handle, data)

/-! ### Every result set is freed -/

/-- The results behind the first. -/
def QueryReply.later : QueryReply → List (Option ResultSet)
  | fails => []
  | results _ later _ => later

/-- Between two calls: nothing is left to be fetched, and only stored result sets were freed. -/
def Mysql.Ready (db : Mysql) : Prop := db.Idle ∧ ∀ n ∈ db.freed, n < db.stored

/-- **The property** of a call that finds the connection `db` and leaves `db'`. -/
structure Released (db db' : Mysql) : Prop where
  once : ∀ n, db.stored ≤ n → n < db'.stored → db'.freed.count n = 1
  idle : db'.Idle

/-- The three functions, with the message they are given. -/
inductive DbCall (F D : Type*)
  | exe
  | getData (data : Option (ProtoDataContainer F D))
  | getDataLite (data : Option (ProtoDataMessage F D))

/-- The connection after a call. -/
def DbCall.run (handle : Option Mysql) (cmd : Option Bytes) : DbCall F D → Option Mysql
  | exe => (dbExe server handle cmd).2
  | getData data => (dbGetData server atof toFloat handle cmd data).2.1
  | getDataLite data => (dbGetDataLite server atof toFloat handle cmd data).2.1

/-- The call maps rows: it has something to map them into. -/
def DbCall.Maps : DbCall F D → Prop
  | exe => False
  | getData data => ∃ c, data = some c ∧ c.idField.isSome = true
  | getDataLite data => data.isSome = true

/-- How many of the results are result sets. -/
def setCount (rs : List (Option ResultSet)) : ℕ := rs.countP Option.isSome

theorem setCount_eq_zero_iff {rs : List (Option ResultSet)} :
    setCount rs = 0 ↔ ∀ r ∈ rs, r = none := by
  simp [setCount]

/-- The loop of `db_exe` stores and frees them all. -/
theorem exeLoop_eq (later : List (Option ResultSet)) (c : Option ResultSet) (failed : Bool)
    (stored : ℕ) (freed : List ℕ) :
    exeLoop ⟨some c, later, failed, stored, freed⟩ =
      ⟨none, [], false, stored + setCount (c :: later),
        freed ++ List.range' stored (setCount (c :: later))⟩ := by
  have hnz : ¬ (if failed then 1 else -1 : ℤ) = 0 := by
    cases failed <;> decide
  induction later generalizing c stored freed with
  | nil =>
    rw [exeLoop]
    cases c <;> simp [Mysql.storeResult, Mysql.freeResult, Mysql.nextResult, hnz, setCount]
  | cons r later ih =>
    rw [exeLoop]
    cases c with
    | none => simp [Mysql.storeResult, Mysql.freeResult, Mysql.nextResult, ih, setCount]
    | some set =>
      simp [Mysql.storeResult, Mysql.freeResult, Mysql.nextResult, ih, setCount]
      exact ⟨by omega, rfl⟩

/-- The loop behind `free_result` stores them and frees none. -/
theorem drain_eq (later : List (Option ResultSet)) (failed : Bool) (stored : ℕ) (freed : List ℕ) :
    drain ⟨none, later, failed, stored, freed⟩ =
      ⟨none, [], false, stored + setCount later, freed⟩ := by
  have hnz : ¬ (if failed then 1 else -1 : ℤ) = 0 := by
    cases failed <;> decide
  induction later generalizing stored with
  | nil =>
    rw [drain]
    simp [Mysql.nextResult, hnz, setCount]
  | cons r later ih =>
    rw [drain]
    cases r with
    | none => simp [Mysql.storeResult, Mysql.freeResult, Mysql.nextResult, ih, setCount]
    | some set =>
      simp [Mysql.storeResult, Mysql.nextResult, ih, setCount]
      omega

/-- What a row mapper does with the connection behind its query. -/
def fetchFirst (db : Mysql) : Mysql :=
  match db.storeResult with
  | (some res, db) => drain (db.freeResult (some res))
  | (none, db) => drain db

theorem fetchFirst_eq (first : Option ResultSet) (later : List (Option ResultSet)) (failed : Bool)
    (stored : ℕ) (freed : List ℕ) :
    fetchFirst ⟨some first, later, failed, stored, freed⟩ =
      ⟨none, [], false, stored + setCount [first] + setCount later,
        freed ++ List.range' stored (setCount [first])⟩ := by
  cases first with
  | none => simp [fetchFirst, Mysql.storeResult, drain_eq, setCount]
  | some set => simp [fetchFirst, Mysql.storeResult, Mysql.freeResult, drain_eq, setCount]

/-- A row mapper that queries. -/
theorem run_maps {call : DbCall F D} (hmaps : call.Maps) (db : Mysql) (cmd : Bytes) :
    call.run server atof toFloat (some db) (some cmd) =
      some (fetchFirst (db.query (server cmd)).2) := by
  cases call with
  | exe => exact hmaps.elim
  | getData data =>
    obtain ⟨⟨idField, items⟩, rfl, hid⟩ := hmaps
    obtain ⟨itemDes, rfl⟩ := Option.isSome_iff_exists.mp hid
    simp only [DbCall.run, dbGetData, fetchFirst]
    rcases (db.query (server cmd)).2.storeResult with ⟨_ | res, db'⟩ <;> rfl
  | getDataLite data =>
    obtain ⟨message, rfl⟩ := Option.isSome_iff_exists.mp hmaps
    simp only [DbCall.run, dbGetDataLite, fetchFirst]
    rcases (db.query (server cmd)).2.storeResult with ⟨_ | res, db'⟩ <;> rfl

/-- One that does not leaves the connection alone. -/
theorem run_not_maps {call : DbCall F D} (hexe : call ≠ .exe) {cmd : Option Bytes}
    (hmaps : cmd = none ∨ ¬ call.Maps) (db : Mysql) :
    call.run server atof toFloat (some db) cmd = some db := by
  cases call with
  | exe => exact absurd rfl hexe
  | getData data =>
    rcases cmd with _ | cmd
    · rfl
    · rcases data with _ | ⟨_ | itemDes, items⟩
      · rfl
      · rfl
      · exact absurd ⟨_, rfl, rfl⟩ (hmaps.resolve_left nofun)
  | getDataLite data =>
    rcases cmd with _ | cmd
    · rfl
    · rcases data with _ | message
      · rfl
      · exact absurd rfl (hmaps.resolve_left nofun)

variable {db : Mysql}

theorem Mysql.Ready.released_self (h : db.Ready) : Released db db :=
  ⟨fun _ hlow hhigh => absurd hhigh (Nat.not_lt.mpr hlow), h.1⟩

/-- When `k` result sets were stored and freed, and then `m` stored only. -/
theorem Mysql.Ready.released_iff_of_freed (h : db.Ready) (k m : ℕ) :
    Released db ⟨none, [], false, db.stored + k + m, db.freed ++ List.range' db.stored k⟩ ↔
      m = 0 := by
  have hcount : ∀ n, db.stored ≤ n →
      (db.freed ++ List.range' db.stored k).count n = if n < db.stored + k then 1 else 0 := by
    intro n hn
    have hold : n ∉ db.freed := fun hmem => absurd (h.2 n hmem) (Nat.not_lt.mpr hn)
    have hnew : n ∈ List.range' db.stored k ↔ n < db.stored + k := by
      rw [List.mem_range'_1]
      omega
    rw [List.count_append, List.count_eq_zero_of_not_mem hold, List.Nodup.count (List.nodup_range' _),
      Nat.zero_add]
    exact if_congr hnew rfl rfl
  constructor
  · rintro ⟨honce, -⟩
    by_contra hm
    have hlast := honce (db.stored + k) (by omega) (show _ < db.stored + k + m by omega)
    rw [hcount _ (by omega), if_neg (lt_irrefl _)] at hlast
    cases hlast
  · rintro rfl
    refine ⟨fun n hlow hhigh => ?_, rfl, rfl⟩
    rw [hcount n hlow]
    exact if_pos hhigh

theorem Mysql.Ready.query_eq (h : db.Ready) (reply : QueryReply) :
    db.query reply =
      match reply with
      | .fails => (1, db)
      | .results first later failed => (0, ⟨some first, later, failed, db.stored, db.freed⟩) := by
  unfold Mysql.query
  rw [if_pos h.1]

/-- After a query that failed there is nothing to be fetched. -/
theorem Mysql.Ready.fetchFirst_eq (h : db.Ready) :
    fetchFirst db = ⟨none, [], false, db.stored, db.freed⟩ := by
  obtain ⟨current, later, failed, stored, freed⟩ := db
  obtain ⟨⟨rfl, rfl⟩, -⟩ := h
  exact drain_eq [] failed stored freed

/-- **Released, exactly.**  For every connection between two calls, every command and every sequence
of results, a call frees each result set it has stored once and leaves nothing to be fetched if and
only if it is `db_exe`, or it has no message to map rows into, or none of the results behind the first
is a result set. -/
theorem released_iff (h : db.Ready) (call : DbCall F D) (cmd : Option Bytes) :
    (∃ db', call.run server atof toFloat (some db) cmd = some db' ∧ Released db db') ↔
      ∀ c ∈ cmd, call.Maps → ∀ r ∈ (server c).later, r = none := by
  by_cases hexe : call = .exe
  · subst hexe
    refine ⟨fun _ c _ hmaps => hmaps.elim, fun _ => ?_⟩
    rcases cmd with _ | cmd
    · exact ⟨db, rfl, h.released_self⟩
    · cases hreply : server cmd with
      | fails =>
        refine ⟨db, ?_, h.released_self⟩
        simp [DbCall.run, dbExe, h.query_eq, hreply]
      | results first later failed =>
        have hfreed := (h.released_iff_of_freed (setCount (first :: later)) 0).mpr rfl
        refine ⟨_, ?_, hfreed⟩
        simp [DbCall.run, dbExe, h.query_eq, hreply, exeLoop_eq]
  · by_cases hmaps : cmd = none ∨ ¬ call.Maps
    · rw [run_not_maps server atof toFloat hexe hmaps]
      refine ⟨?_, fun _ => ⟨db, rfl, h.released_self⟩⟩
      rintro - c rfl hcall
      exact absurd hcall (hmaps.resolve_left nofun)
    · rw [not_or, not_not] at hmaps
      obtain ⟨c, rfl⟩ := Option.ne_none_iff_exists'.mp hmaps.1
      simp only [run_maps server atof toFloat hmaps.2, Option.some.injEq, exists_eq_left',
        Option.mem_some_iff, forall_eq', hmaps.2, true_imp_iff, h.query_eq]
      cases hreply : server c with
      | fails =>
        have hfreed := (h.released_iff_of_freed 0 0).mpr rfl
        rw [List.range'_zero, List.append_nil] at hfreed
        exact ⟨fun _ _ hr => (List.not_mem_nil hr).elim, fun _ => h.fetchFirst_eq ▸ hfreed⟩
      | results first later failed =>
        simp only [fetchFirst_eq, h.released_iff_of_freed, setCount_eq_zero_iff, QueryReply.later]

end Functions

/-- `db_connect`: a connection that was opened. -/
def Mysql.opened : Mysql := ⟨none, [], false, 0, []⟩

theorem Mysql.ready_opened : opened.Ready := ⟨⟨rfl, rfl⟩, nofun⟩

/-- What `SELECT 1` gives: one column, and a row. -/
def selectOne : ResultSet where
  columns := [ascii "1"]
  rows := [[some (ascii "1")]]
  width := by simp
  fieldCount := by simp

/-- Two statements that both give a result set, through `db_exe`. -/
theorem released_iff_exe :
    ∃ db', DbCall.run (fun _ => .results (some selectOne) [some selectOne] false) (fun _ => ()) id
        (some .opened) (some (ascii "CALL p(); SELECT 1")) .exe = some db' ∧
      Released .opened db' :=
  (released_iff _ _ _ Mysql.ready_opened .exe _).mpr fun _ _ hmaps => hmaps.elim

/-- **The second result set is not freed** by `db_get_data_lite`. -/
theorem not_released_getDataLite :
    ¬∃ db', DbCall.run (fun _ => .results (some selectOne) [some selectOne] false) (fun _ => ()) id
        (some .opened) (some (ascii "CALL p(); SELECT 1"))
        (.getDataLite (some ⟨⟨[]⟩, .blank⟩)) = some db' ∧ Released .opened db' := by
  rintro ⟨db', hrun, honce, -⟩
  have hmaps : (DbCall.getDataLite (some ⟨⟨[]⟩, .blank⟩) : DbCall Unit Unit).Maps := rfl
  rw [run_maps _ _ _ hmaps, Mysql.ready_opened.query_eq, fetchFirst_eq, Option.some.injEq] at hrun
  subst hrun
  exact absurd (honce 1 (by decide) (by decide)) (by decide)

end GoFight.Data
