import GoFight.Data.GoDb

/-!
# What the row mappers report

`db_get_data` appends an item for each row of the first result set, `db_get_data_lite` maps all rows
into one message.

* `rowItem` — the item of a row, every column set;
* `Reports` — `db_get_data` returns `true` exactly when the query succeeded and every column is a
  field, has then appended one item for each row, and else has left the container alone;
* `reports_iff` — when it does;
* `overwriteRows_eq_last` — mapping rows over one message leaves what a fresh item has in the end;
* `RowsAgree`, `rowsAgree_iff` — when the two functions give the same message.

The two functions answer `true` whatever happened, and count rows and columns in an `int`.
-/

namespace GoFight.Data

open GoFight.Net (cint intMax cint_of_mem cint_le)

section Mappers

variable {F D : Type*} (atof : Bytes → D) (toFloat : D → F)

/-! ### A row -/

/-- One column of a row. -/
def setColumn (des : Descriptor) (item : ProtoData F D) (cell : Bytes × Option Bytes) :
    ProtoData F D :=
  match des.findFieldByName cell.1 with
  | none => item
  | some fdes => setProtoData atof toFloat item fdes (cell.2.getD [])

/-- The item of a row. -/
def rowItem (des : Descriptor) (columns : List Bytes) (row : List (Option Bytes)) : ProtoData F D :=
  (columns.zip row).foldl (setColumn atof toFloat des) .blank

/-- Every column is a field. -/
def Known (des : Descriptor) (columns : List Bytes) : Prop :=
  ∀ name ∈ columns, (des.findFieldByName name).isSome = true

instance (des : Descriptor) (columns : List Bytes) : Decidable (Known des columns) :=
  inferInstanceAs (Decidable (∀ _ ∈ _, _))

variable {des : Descriptor}

theorem mapRow_of_known {cells : List (Bytes × Option Bytes)} (h : Known des (cells.map (·.1)))
    (item : ProtoData F D) :
    mapRow atof toFloat des cells item = (true, cells.foldl (setColumn atof toFloat des) item) := by
  induction cells generalizing item with
  | nil => rfl
  | cons cell cells ih =>
    obtain ⟨name, cell⟩ := cell
    obtain ⟨fdes, hf⟩ := Option.isSome_iff_exists.mp (h name (by simp))
    have hrest : Known des (cells.map (·.1)) := fun n hn => h n (List.mem_cons_of_mem _ hn)
    rw [List.foldl_cons, mapRow, setColumn, hf]
    exact ih hrest _

/-- A row with a column leaves something in the item. -/
theorem foldl_setColumn_ne_blank (hsup : ∀ f ∈ des.fields, f.cppType.Supported)
    {cells : List (Bytes × Option Bytes)} (h : Known des (cells.map (·.1))) (hne : cells ≠ [])
    (item : ProtoData F D) : cells.foldl (setColumn atof toFloat des) item ≠ .blank := by
  obtain ⟨init, ⟨name, cell⟩, rfl⟩ : ∃ init last, cells = init ++ [last] :=
    ⟨_, _, (List.dropLast_append_getLast hne).symm⟩
  obtain ⟨fdes, hf⟩ := Option.isSome_iff_exists.mp (h name (by simp))
  have hmem : fdes ∈ des.fields := List.mem_of_find?_eq_some hf
  obtain ⟨v, hv⟩ := Option.isSome_iff_exists.mp
    ((fieldValue_isSome_iff atof toFloat fdes.cppType (cell.getD [])).mpr (hsup fdes hmem))
  intro hblank
  have hfield := congrFun hblank fdes
  rw [List.foldl_concat, setColumn, hf] at hfield
  simp only [setProtoData_eq, hv, ProtoData.set_self] at hfield
  cases hfield

/-! ### `db_get_data` -/

theorem addRows_of_known {set : ResultSet} (h : ∀ row, Known des ((set.cells row).map (·.1)))
    (rows : List (List (Option Bytes))) (items : List (ProtoData F D)) :
    addRows atof toFloat des set rows items =
      items ++ rows.map fun row => (set.cells row).foldl (setColumn atof toFloat des) .blank := by
  induction rows generalizing items with
  | nil => rw [addRows, List.map_nil, List.append_nil]
  | cons row rows ih =>
    rw [addRows, mapRow_of_known atof toFloat (h row), List.map_cons]
    simp only [if_true, ih, List.append_assoc, List.singleton_append]

/-- The columns of the first result set. -/
def QueryReply.columns : QueryReply → List Bytes
  | results (some set) _ _ => set.columns
  | _ => []

/-- Its rows. -/
def QueryReply.rows : QueryReply → List (List (Option Bytes))
  | results (some set) _ _ => set.rows
  | _ => []

/-- The query succeeds. -/
def QueryReply.Succeeds (reply : QueryReply) : Prop := reply ≠ fails

/-- **The property** of a call on `data` that returns `ret` and leaves `data'`. -/
structure Reports (des : Descriptor) (reply : QueryReply) (data : ProtoDataContainer F D)
    (ret : Bool) (data' : Option (ProtoDataContainer F D)) : Prop where
  ret_iff : ret = true ↔ reply.Succeeds ∧ Known des reply.columns
  appended : ret = true → data' = some
    { data with items := data.items ++ reply.rows.map (rowItem atof toFloat des reply.columns) }
  unchanged : ret = false → data' = some data

/-- What the first result set makes of a container's items. -/
def appendedTo (des : Descriptor) (reply : QueryReply) (items : List (ProtoData F D)) :
    List (ProtoData F D) :=
  match reply with
  | .results (some set) _ _ => addRows atof toFloat des set set.fetched items
  | _ => items

theorem appendedTo_results (set : ResultSet) (later : List (Option ResultSet)) (failed : Bool)
    (items : List (ProtoData F D)) :
    appendedTo atof toFloat des (.results (some set) later failed) items =
      addRows atof toFloat des set set.fetched items := rfl

variable {server : Bytes → QueryReply} {db : Mysql} {cmd : Bytes}

/-- `db_get_data` on a connection between two calls. -/
theorem dbGetData_eq (server : Bytes → QueryReply) (cmd : Bytes) (des : Descriptor)
    (hdb : db.Ready) (items : List (ProtoData F D)) :
    ∃ db', dbGetData server atof toFloat (some db) (some cmd) (some ⟨some des, items⟩) =
      (true, some db', some ⟨some des, appendedTo atof toFloat des (server cmd) items⟩) := by
  simp only [dbGetData, hdb.query_eq]
  obtain ⟨current, later, failed, stored, freed⟩ := db
  obtain ⟨⟨rfl, rfl⟩, -⟩ := hdb
  cases server cmd with
  | fails => exact ⟨_, rfl⟩
  | results first later failed => cases first <;> exact ⟨_, rfl⟩

/-- The loop variables reach the end. -/
theorem cint_toNat_eq_iff {n : ℕ} : n ≤ (cint n).toNat ↔ (n : ℤ) ≤ intMax ∨ n = 0 := by
  have hle := cint_le n
  constructor
  · intro h
    rcases Nat.eq_zero_or_pos n with h0 | hpos
    · exact .inr h0
    · left
      omega
  · rintro (h | rfl)
    · rw [cint_of_mem (by omega) h]
      omega
    · exact Nat.zero_le _

theorem ResultSet.known_cells {set : ResultSet} (h : Known des set.columns)
    (row : List (Option Bytes)) : Known des ((set.cells row).map (·.1)) := by
  intro name hname
  obtain ⟨⟨n, cell⟩, hcell, rfl⟩ := List.mem_map.mp hname
  exact h n (List.of_mem_zip (List.mem_of_mem_take hcell)).1

theorem zip_length {set : ResultSet} {row : List (Option Bytes)} (hrow : row ∈ set.rows) :
    (set.columns.zip row).length = set.columns.length := by
  rw [List.length_zip, set.width row hrow, Nat.min_self]

/-- With at most `INT_MAX` columns the inner loop looks at all of them. -/
theorem ResultSet.cells_eq {set : ResultSet} {row : List (Option Bytes)} (hrow : row ∈ set.rows)
    (h : (set.columns.length : ℤ) ≤ intMax) : set.cells row = set.columns.zip row := by
  rw [cells, List.take_of_length_le]
  rw [zip_length hrow]
  exact cint_toNat_eq_iff.mpr (.inl h)

/-- With more of them it looks at none. -/
theorem ResultSet.cells_eq_nil {set : ResultSet} (h : ¬ (set.columns.length : ℤ) ≤ intMax)
    (row : List (Option Bytes)) : set.cells row = [] := by
  have hcount := set.fieldCount
  have hneg : (cint set.columns.length).toNat = 0 := by
    unfold cint intMax at *
    omega
  rw [cells, hneg, List.take_zero]

/-- The items are those of the rows exactly when the counts are no larger than an `int`. -/
theorem addRows_eq_iff (hsup : ∀ f ∈ des.fields, f.cppType.Supported) {set : ResultSet}
    (h : Known des set.columns) (items : List (ProtoData F D)) :
    addRows atof toFloat des set set.fetched items =
        items ++ set.rows.map (rowItem atof toFloat des set.columns) ↔
      (set.rows.length : ℤ) ≤ intMax ∧ (set.rows = [] ∨ (set.columns.length : ℤ) ≤ intMax) := by
  have hall : (set.rows.length : ℤ) ≤ intMax → set.fetched = set.rows := fun hrows =>
    List.take_of_length_le (cint_toNat_eq_iff.mpr (.inl hrows))
  rw [addRows_of_known atof toFloat (ResultSet.known_cells h), List.append_cancel_left_eq]
  constructor
  · intro heq
    have hrows : (set.rows.length : ℤ) ≤ intMax := by
      have hlen := congrArg List.length heq
      rw [List.length_map, List.length_map, ResultSet.fetched, List.length_take] at hlen
      rcases cint_toNat_eq_iff.mp (show set.rows.length ≤ _ by omega) with hle | h0
      · exact hle
      · rw [h0]
        decide
    refine ⟨hrows, ?_⟩
    rw [or_iff_not_imp_left]
    intro hne
    obtain ⟨row, hrow⟩ := List.exists_mem_of_ne_nil _ hne
    by_contra hcolumns
    rw [hall hrows, List.map_inj_left] at heq
    have hblank := heq row hrow
    rw [ResultSet.cells_eq_nil hcolumns, List.foldl_nil] at hblank
    have hzip : set.columns.zip row ≠ [] := by
      intro hnil
      have hlen := zip_length hrow
      rw [hnil, List.length_nil] at hlen
      rw [← hlen] at hcolumns
      exact hcolumns (by decide)
    have hnames : Known des ((set.columns.zip row).map (·.1)) := by
      intro name hname
      obtain ⟨⟨n, cell⟩, hcell, rfl⟩ := List.mem_map.mp hname
      exact h n (List.of_mem_zip hcell).1
    exact foldl_setColumn_ne_blank atof toFloat hsup hnames hzip .blank hblank.symm
  · rintro ⟨hrows, hcolumns⟩
    rw [hall hrows]
    apply List.map_congr_left
    intro row hrow
    rw [ResultSet.cells_eq hrow (hcolumns.resolve_left (List.ne_nil_of_mem hrow)), rowItem]

/-- The items after a call, where there is no result set as well. -/
theorem items_eq_iff (hsup : ∀ f ∈ des.fields, f.cppType.Supported) {reply : QueryReply}
    (h : Known des reply.columns) (items : List (ProtoData F D)) :
    appendedTo atof toFloat des reply items =
        items ++ reply.rows.map (rowItem atof toFloat des reply.columns) ↔
      (reply.rows.length : ℤ) ≤ intMax ∧
        (reply.rows = [] ∨ (reply.columns.length : ℤ) ≤ intMax) := by
  cases reply with
  | fails => simp [appendedTo, QueryReply.rows, intMax]
  | results first later failed =>
    cases first with
    | none => simp [appendedTo, QueryReply.rows, intMax]
    | some set => exact addRows_eq_iff atof toFloat hsup h items

/-- **What `db_get_data` reports, exactly.**  For every command, every reply of the server and every
container, it reports what it did if and only if the query succeeded, every column of the first result
set is a field, and neither its rows nor, if there are any, its columns are more than an `int` counts. -/
theorem reports_iff (hdb : db.Ready) (hsup : ∀ f ∈ des.fields, f.cppType.Supported)
    (items : List (ProtoData F D)) :
    Reports atof toFloat des (server cmd) ⟨some des, items⟩
        (dbGetData server atof toFloat (some db) (some cmd) (some ⟨some des, items⟩)).1
        (dbGetData server atof toFloat (some db) (some cmd) (some ⟨some des, items⟩)).2.2 ↔
      (server cmd).Succeeds ∧ Known des (server cmd).columns ∧
        ((server cmd).rows.length : ℤ) ≤ intMax ∧
        ((server cmd).rows = [] ∨ ((server cmd).columns.length : ℤ) ≤ intMax) := by
  obtain ⟨db', hrun⟩ := dbGetData_eq atof toFloat server cmd des hdb items
  rw [hrun]
  constructor
  · rintro ⟨hret, happended, -⟩
    obtain ⟨hok, hknown⟩ := hret.mp rfl
    refine ⟨hok, hknown, (items_eq_iff atof toFloat hsup hknown items).mp ?_⟩
    simpa only [Option.some.injEq, ProtoDataContainer.mk.injEq, true_and] using happended rfl
  · rintro ⟨hok, hknown, hcounts⟩
    refine ⟨iff_of_true rfl ⟨hok, hknown⟩, fun _ => ?_, nofun⟩
    rw [(items_eq_iff atof toFloat hsup hknown items).mpr hcounts]

/-! ### The two mappers -/

/-- A field that the columns set or clear, up to the first that is no field. -/
def Touches (des : Descriptor) : List Bytes → FieldDescriptor → Prop
  | [], _ => False
  | name :: names, g =>
      match des.findFieldByName name with
      | none => False
      | some fdes => (fdes.cppType.Supported ∧ fdes.Shares g) ∨ Touches des names g

/-- Two messages that a column is set in: the field and its `oneof` agree afterwards. -/
theorem setProtoData_congr (fdes : FieldDescriptor) (val : Bytes) (pd pd' : ProtoData F D)
    (g : FieldDescriptor)
    (h : fdes.cppType.Supported ∧ fdes.Shares g ∨ pd g = pd' g) :
    setProtoData atof toFloat pd fdes val g = setProtoData atof toFloat pd' fdes val g := by
  rw [setProtoData_eq, setProtoData_eq]
  cases hv : fieldValue atof toFloat fdes.cppType val with
  | none =>
    have hno : ¬ fdes.cppType.Supported := by
      rw [← fieldValue_isSome_iff atof toFloat fdes.cppType val, hv]
      nofun
    exact h.resolve_left fun hs => hno hs.1
  | some v =>
    simp only [ProtoData.set]
    split_ifs with hg hs
    · rfl
    · rfl
    · exact h.resolve_left fun ht => hs ht.2

theorem setProtoData_of_not_touched (fdes : FieldDescriptor) (val : Bytes) (pd : ProtoData F D)
    {g : FieldDescriptor} (h : ¬ (fdes.cppType.Supported ∧ fdes.Shares g)) :
    setProtoData atof toFloat pd fdes val g = pd g := by
  rw [setProtoData_eq]
  cases hv : fieldValue atof toFloat fdes.cppType val with
  | none => rfl
  | some v =>
    have hsup : fdes.cppType.Supported := by
      rw [← fieldValue_isSome_iff atof toFloat fdes.cppType val, hv]
      rfl
    have hs : ¬ fdes.Shares g := fun hs => h ⟨hsup, hs⟩
    have hg : ¬ g = fdes := fun hg => hs (.inl hg)
    simp only [ProtoData.set, if_neg hg, if_neg hs]

/-- **A row decides the fields it touches**: over two messages that agree elsewhere it leaves the
same. -/
theorem mapRow_congr {cells : List (Bytes × Option Bytes)} {pd pd' : ProtoData F D}
    (h : ∀ g, Touches des (cells.map (·.1)) g ∨ pd g = pd' g) :
    mapRow atof toFloat des cells pd = mapRow atof toFloat des cells pd' := by
  induction cells generalizing pd pd' with
  | nil =>
    have hpd : pd = pd' := funext fun g => (h g).resolve_left id
    rw [hpd]
  | cons cell cells ih =>
    obtain ⟨name, cell⟩ := cell
    simp only [List.map_cons, Touches] at h
    rw [mapRow, mapRow]
    cases hf : des.findFieldByName name with
    | none =>
      simp only [hf, false_or] at h
      rw [funext h]
    | some fdes =>
      simp only [hf] at h
      apply ih
      intro g
      rcases h g with (hset | ht) | hg
      · exact .inr (setProtoData_congr atof toFloat fdes _ pd pd' g (.inl hset))
      · exact .inl ht
      · exact .inr (setProtoData_congr atof toFloat fdes _ pd pd' g (.inr hg))

/-- A row leaves the other fields as they were. -/
theorem mapRow_of_not_touches {cells : List (Bytes × Option Bytes)} {pd : ProtoData F D}
    {g : FieldDescriptor} (h : ¬ Touches des (cells.map (·.1)) g) :
    (mapRow atof toFloat des cells pd).2 g = pd g := by
  induction cells generalizing pd with
  | nil => rfl
  | cons cell cells ih =>
    obtain ⟨name, cell⟩ := cell
    simp only [List.map_cons, Touches] at h
    rw [mapRow]
    cases hf : des.findFieldByName name with
    | none => rfl
    | some fdes =>
      simp only [hf, not_or] at h
      exact (ih h.2).trans (setProtoData_of_not_touched atof toFloat fdes _ pd h.1)

theorem ResultSet.cells_names {set : ResultSet} {row : List (Option Bytes)} (hrow : row ∈ set.rows) :
    (set.cells row).map (·.1) = set.columns.take (cint set.columns.length).toNat := by
  rw [cells, List.map_take, List.map_fst_zip (set.width row hrow).ge]

theorem ResultSet.mem_rows {set : ResultSet} {row : List (Option Bytes)}
    (hrow : row ∈ set.fetched) : row ∈ set.rows := by
  rw [fetched] at hrow
  exact List.mem_of_mem_take hrow

/-- **Row by row.**  Rows mapped over a message in which only fields of the columns are set leave what
the last fresh item has, a column that stops them included. -/
theorem overwriteRows_eq_last {set : ResultSet} {names : List Bytes}
    {rows : List (List (Option Bytes))}
    (hrows : ∀ row ∈ rows, (set.cells row).map (·.1) = names) (hne : rows ≠ [])
    {pd : ProtoData F D} (hpd : ∀ g, Touches des names g ∨ pd g = none)
    (items : List (ProtoData F D)) :
    (addRows atof toFloat des set rows items).getLast? =
      some (overwriteRows atof toFloat des set rows pd) := by
  induction rows generalizing pd items with
  | nil => exact absurd rfl hne
  | cons row rows ih =>
    have hnames := hrows row List.mem_cons_self
    have hfresh : mapRow atof toFloat des (set.cells row) pd =
        mapRow atof toFloat des (set.cells row) .blank :=
      mapRow_congr atof toFloat fun g => hnames.symm ▸ hpd g
    have htouched : ∀ g, Touches des names g ∨
        (mapRow atof toFloat des (set.cells row) .blank).2 g = none := by
      intro g
      rw [or_iff_not_imp_left]
      intro hg
      exact mapRow_of_not_touches atof toFloat (hnames.symm ▸ hg)
    rw [addRows, overwriteRows, hfresh]
    generalize mapRow atof toFloat des (set.cells row) .blank = r at htouched ⊢
    obtain ⟨more, item⟩ := r
    cases more with
    | false =>
      simp only [Bool.false_eq_true, if_false]
      rw [List.getLast?_concat]
    | true =>
      simp only [if_true]
      by_cases hnil : rows = []
      · rw [hnil, addRows, overwriteRows, List.getLast?_concat]
      · exact ih (fun r hr => hrows r (List.mem_cons_of_mem _ hr)) hnil htouched _

/-- The last item of the container a call leaves. -/
def lastItem (r : Bool × Option Mysql × Option (ProtoDataContainer F D)) :
    Option (ProtoData F D) :=
  match r with
  | (_, _, some data) => data.items.getLast?
  | (_, _, none) => none

/-- The message a call leaves. -/
def message (r : Bool × Option Mysql × Option (ProtoDataMessage F D)) : Option (ProtoData F D) :=
  match r with
  | (_, _, some data) => some data.value
  | (_, _, none) => none

theorem lastItem_some (ret : Bool) (db : Option Mysql) (idField : Option Descriptor)
    (items : List (ProtoData F D)) : lastItem (ret, db, some ⟨idField, items⟩) = items.getLast? := rfl

theorem message_some (ret : Bool) (db : Option Mysql) (des : Descriptor) (value : ProtoData F D) :
    message (ret, db, some ⟨des, value⟩) = some value := rfl

/-- **The property**: the last item of an empty container is what an empty message becomes. -/
def RowsAgree (server : Bytes → QueryReply) (db : Mysql) (cmd : Bytes) (des : Descriptor) : Prop :=
  (lastItem (dbGetData server atof toFloat (some db) (some cmd) (some ⟨some des, []⟩))).isSome ∧
    lastItem (dbGetData server atof toFloat (some db) (some cmd) (some ⟨some des, []⟩)) =
      message (dbGetDataLite server atof toFloat (some db) (some cmd) (some ⟨des, .blank⟩))

theorem dbGetDataLite_eq (des : Descriptor) (hdb : db.Ready) {set : ResultSet} {later : List (Option ResultSet)}
    {failed : Bool} (hreply : server cmd = .results (some set) later failed)
    (value : ProtoData F D) :
    ∃ db', dbGetDataLite server atof toFloat (some db) (some cmd) (some ⟨des, value⟩) =
      (true, some db', some ⟨des, overwriteRows atof toFloat des set set.fetched value⟩) := by
  simp only [dbGetDataLite, hdb.query_eq, hreply]
  exact ⟨_, rfl⟩

/-- Whether the outer loops get to a row. -/
theorem ResultSet.fetched_eq_nil_iff {set : ResultSet} (h : set.rows ≠ []) :
    set.fetched = [] ↔ ¬ 0 < cint set.rows.length := by
  rw [fetched, List.take_eq_nil_iff, or_iff_left h]
  omega

/-- They give the same message where they get to a row. -/
theorem rowsAgree_iff_fetched (des : Descriptor) (hdb : db.Ready) {set : ResultSet}
    {later : List (Option ResultSet)} {failed : Bool}
    (hreply : server cmd = .results (some set) later failed) :
    RowsAgree atof toFloat server db cmd des ↔ set.fetched ≠ [] := by
  obtain ⟨db', hdata⟩ := dbGetData_eq atof toFloat server cmd des hdb []
  obtain ⟨db'', hlite⟩ := dbGetDataLite_eq atof toFloat des hdb hreply .blank
  rw [RowsAgree, hdata, hlite, hreply, appendedTo_results, lastItem_some, message_some]
  constructor
  · rintro ⟨hsome, -⟩ hnil
    rw [hnil, addRows, List.getLast?_nil] at hsome
    cases hsome
  · intro hne
    have hblank : ∀ g, Touches des (set.columns.take (cint set.columns.length).toNat) g ∨
        (ProtoData.blank : ProtoData F D) g = none := fun _ => .inr rfl
    have hlast := overwriteRows_eq_last atof toFloat
      (fun row hrow => ResultSet.cells_names (ResultSet.mem_rows hrow)) hne hblank []
    exact ⟨by rw [hlast, Option.isSome_some], hlast⟩

/-- **The mappers agree, exactly.**  For every result set with a row and every message type the two
functions give the same message if and only if the number of rows, as an `int`, is positive. -/
theorem rowsAgree_iff (des : Descriptor) (hdb : db.Ready) {set : ResultSet}
    {later : List (Option ResultSet)} {failed : Bool}
    (hreply : server cmd = .results (some set) later failed) (hrows : set.rows ≠ []) :
    RowsAgree atof toFloat server db cmd des ↔ 0 < cint set.rows.length := by
  rw [rowsAgree_iff_fetched atof toFloat des hdb hreply, ne_eq, ResultSet.fetched_eq_nil_iff hrows,
    not_not]

end Mappers

/-! ### Some result sets -/

/-- Players with an integer `id`. -/
def playerDescriptor : Descriptor := ⟨[idField .int32]⟩

/-- Two rows of one column, a `NULL` in the second. -/
def twoRows (column : Bytes) : ResultSet where
  columns := [column]
  rows := [[some (ascii "7")], [none]]
  width := by simp
  fieldCount := by simp

/-- What the server gives for a statement with these rows. -/
def answer (set : ResultSet) (_cmd : Bytes) : QueryReply := .results (some set) [] false

theorem reports_iff_twoRows :
    Reports (fun _ => ()) id playerDescriptor (answer (twoRows (ascii "id")) (ascii "SELECT"))
      ⟨some playerDescriptor, []⟩
      (dbGetData (answer (twoRows (ascii "id"))) (fun _ => ()) id (some .opened)
        (some (ascii "SELECT")) (some ⟨some playerDescriptor, []⟩)).1
      (dbGetData (answer (twoRows (ascii "id"))) (fun _ => ()) id (some .opened)
        (some (ascii "SELECT")) (some ⟨some playerDescriptor, []⟩)).2.2 := by
  have hsup : ∀ f ∈ playerDescriptor.fields, f.cppType.Supported := by decide
  apply (reports_iff (fun _ => ()) id Mysql.ready_opened hsup []).mpr
  exact ⟨nofun, by decide, by decide, .inr (by decide)⟩

/-- **A query that fails is reported as done.** -/
theorem not_reports_fails :
    ¬ Reports (fun _ => ()) id playerDescriptor .fails ⟨some playerDescriptor, []⟩
      (dbGetData (fun _ => .fails) (fun _ => ()) id (some .opened) (some (ascii "SELECT"))
        (some ⟨some playerDescriptor, []⟩)).1
      (dbGetData (fun _ => .fails) (fun _ => ()) id (some .opened) (some (ascii "SELECT"))
        (some ⟨some playerDescriptor, []⟩)).2.2 :=
  fun h => (h.ret_iff.mp rfl).1 rfl

/-- A column that is no field stops both mappers in the first row. -/
theorem rowsAgree_unknown :
    RowsAgree (fun _ => ()) id (answer (twoRows (ascii "name"))) .opened (ascii "SELECT")
      playerDescriptor :=
  (rowsAgree_iff _ _ playerDescriptor Mysql.ready_opened rfl (List.cons_ne_nil _ _)).mpr (by decide)

/-- 2^31 rows of one column. -/
def manyRows : ResultSet where
  columns := [ascii "id"]
  rows := List.replicate 2147483648 [none]
  width _ hrow := congrArg List.length (List.eq_of_mem_replicate hrow)
  fieldCount := by simp

/-- **2^31 rows are negative as an `int`**, and `db_get_data` appends no item. -/
theorem not_rowsAgree_manyRows :
    manyRows.rows ≠ [] ∧
      ¬ RowsAgree (fun _ => ()) id (answer manyRows) .opened (ascii "SELECT") playerDescriptor := by
  have hlen : manyRows.rows.length = 2147483648 := List.length_replicate
  have hne : manyRows.rows ≠ [] := by
    intro hnil
    rw [hnil] at hlen
    cases hlen
  have hcount : ¬ 0 < cint (2147483648 : ℕ) := by decide
  refine ⟨hne, fun hagree => ?_⟩
  apply (rowsAgree_iff_fetched _ _ playerDescriptor Mysql.ready_opened rfl).mp hagree
  rw [ResultSet.fetched_eq_nil_iff hne, hlen]
  exact hcount

end GoFight.Data
