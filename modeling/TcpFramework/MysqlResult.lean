/-
  TcpFramework.MysqlResult — reading the rows of a stored query result.

  MysqlResult copies the pointers to the rows of a result set, without those whose first
  cell is NULL, and goes through them with a cursor that starts before the first one.
  getColumn writes a cell to a stringstream and reads the caller's variable from it.

  Counters are ints here.  That the cells stay where they are, after mysql_free_result too,
  is taken for granted.  An access that leaves the rows or the cells of a row is `none`.

  Main results:
    * `fetch_eq` — the rows that the constructor keeps.
    * `getColumn_spec` — one cell.
    * `result_reads` — the loop over next and getColumn goes through the kept rows.
    * `int_column_reads` — a column of ints is read back.
-/
import TcpFramework.ParsePkg
import TcpFramework.Stream

namespace TcpFramework

open ParsePkg

/-! ## §1. Result sets. -/

/-- A cell: a text, or NULL. -/
abbrev Cell := Option (List Char)

/-- MYSQL_ROW. -/
abbrev Row := List Cell

/-- A stored result set; every row has as many cells as there are fields. -/
structure ResultSet where
  numFields : Nat
  rows : List Row
  width : ∀ row ∈ rows, row.length = numFields

/-- MysqlResult. -/
structure MysqlResult where
  iNumFields : Int
  rows : List Row
  iCurRow : Int
  iRowNum : Int
  deriving DecidableEq

/-- What a `char*` to the text is printed as: its characters up to the first NUL. -/
def cString (text : List Char) : List Char := text.takeWhile fun c => c ≠ '\x00'

/-- `row[index]`. -/
def cellAt (row : Row) (index : Int) : Option Cell :=
  if 0 ≤ index then row[index.toNat]? else none

namespace MysqlResult

/-! ## §2. The constructor, next and getColumn. -/

/-- The loop over mysql_fetch_row: the rows that are pushed. -/
def fetch : List Row → Option (List Row)
  | [] => some []
  | row :: rows =>
      (cellAt row 0).bind fun cell =>
        if cell = none then fetch rows else (fetch rows).map fun kept => row :: kept

/-- `MysqlResult(presult)`. -/
def new : Option ResultSet → Option MysqlResult
  | none => some ⟨0, [], 0, 0⟩
  | some presult =>
      (fetch presult.rows).map fun rows => ⟨toInt presult.numFields, rows, 0, toInt rows.length⟩

/-- `next`. -/
def next (r : MysqlResult) : Bool × MysqlResult :=
  let iCurRow := Int.bmod (r.iCurRow + 1) UInt32.size
  (if iCurRow > r.iRowNum then false else true, { r with iCurRow := iCurRow })

/-- `m_rows[m_iCurRow-1]`. -/
def current (r : MysqlResult) : Option Row := r.rows[toSize (r.iCurRow - 1)]?

/-- `getColumn`: what it returns, and the value afterwards.  `extract` is `>>`: what it makes
of a text and the value before. -/
def getColumn {T : Type*} (extract : List Char → T → T) (index : Int) (value : T)
    (r : MysqlResult) : Option (Bool × T) :=
  if index ≤ r.iNumFields then
    (r.current.bind fun row => cellAt row index).map fun cell =>
      cell.elim (false, value) fun text => (true, extract (cString text) value)
  else some (false, value)

/-- A turn of the loop: the row under the cursor, what getColumn returned, and the value. -/
structure Visit (T : Type*) where
  row : Row
  ret : Bool
  value : T
  deriving DecidableEq

/-- `while (r.next()) r.getColumn(index, value)`, with fuel. -/
def readAll {T : Type*} (extract : List Char → T → T) (index : Int) :
    Nat → T → MysqlResult → Option (List (Visit T))
  | 0, _, _ => none
  | fuel + 1, value, r =>
      if r.next.1 then
        r.next.2.current.bind fun row =>
          (r.next.2.getColumn extract index value).bind fun c =>
            (readAll extract index fuel c.2 r.next.2).map fun visits =>
              ⟨row, c.1, c.2⟩ :: visits
      else some []

end MysqlResult

/-- `>>` to a std::string. -/
def extractWord (text value : List Char) : List Char := (readWord text).getD value

/-- `MysqlConn::query`, with what mysql_query and mysql_store_result return. -/
def MysqlConn.query (mysqlQuery : Int) (presult : Option ResultSet) (myResult : MysqlResult) :
    Option (Bool × MysqlResult) :=
  if mysqlQuery ≠ 0 then some (false, myResult)
  else if presult = none then some (false, myResult)
  else (MysqlResult.new presult).map fun result => (true, result)

namespace MysqlResult

/-! ## §3. The constructor. -/

/-- The first cell of the row is not NULL. -/
def kept (row : Row) : Bool := row[0]? ≠ some none

/-- **The rows that the constructor keeps** are those whose first cell is not NULL. -/
theorem fetch_eq (rows : List Row) (h : ∀ row ∈ rows, row ≠ []) :
    fetch rows = some (rows.filter kept) := by
  induction rows with
  | nil => rfl
  | cons row rows ih =>
      have hrest := ih fun row' hmem => h row' (List.mem_cons_of_mem _ hmem)
      rw [fetch, hrest, List.filter_cons]
      cases row with
      | nil => exact absurd rfl (h [] List.mem_cons_self)
      | cons cell cells =>
          have hcell : cellAt (cell :: cells) 0 = some cell := rfl
          rw [hcell]
          cases cell <;> rfl

/-! ## §4. One row. -/

/-- What a turn of the loop says about its row: getColumn returns true exactly for a cell of
the row that is not NULL, and the value has been extracted from its text. -/
structure Visit.Right {T : Type*} (extract : List Char → T → T) (n : Nat) (index : Int)
    (visit : Visit T) : Prop where
  ret : visit.ret = true ↔ index < n ∧ ∃ text, visit.row[index.toNat]? = some (some text)
  value : ∀ text, visit.row[index.toNat]? = some (some text) →
    ∃ before, visit.value = extract (cString text) before

/-- **One cell**, at any index but the number of fields. -/
theorem getColumn_spec {T : Type*} (extract : List Char → T → T) {index : Int} {n : Nat}
    (hindex : 0 ≤ index) (hne : index ≠ n) {r : MysqlResult} (hfields : r.iNumFields = n)
    {row : Row} (hrow : r.current = some row) (hwidth : row.length = n) (value : T) :
    ∃ c : Bool × T, r.getColumn extract index value = some c
      ∧ Visit.Right extract n index ⟨row, c.1, c.2⟩ := by
  unfold getColumn
  rw [hfields, hrow]
  by_cases hle : index ≤ n
  · have hlt : index.toNat < row.length := by omega
    have hcell : cellAt row index = some row[index.toNat] := by
      unfold cellAt
      rw [if_pos hindex, List.getElem?_eq_getElem hlt]
    rw [if_pos hle, Option.bind_some, hcell, Option.map_some]
    have hget := List.getElem?_eq_getElem hlt
    cases hc : row[index.toNat] with
    | none =>
        rw [hc] at hget
        refine ⟨_, rfl, ?_, ?_⟩
        · simp [hget]
        · intro text htext
          exact absurd (hget.symm.trans htext) (by simp)
    | some text =>
        rw [hc] at hget
        refine ⟨_, rfl, ?_, ?_⟩
        · simp only [Option.elim_some, true_iff]
          exact ⟨by omega, text, hget⟩
        · intro text' htext
          obtain rfl : text = text' := Option.some.inj (Option.some.inj (hget.symm.trans htext))
          exact ⟨value, rfl⟩
  · -- behind the fields: nothing is read
    have hnone : row[index.toNat]? = none := List.getElem?_eq_none (by omega)
    rw [if_neg hle]
    refine ⟨_, rfl, ?_, ?_⟩
    · simp [hnone]
    · intro text htext
      exact absurd (hnone.symm.trans htext) (by simp)

/-! ## §5. The loop. -/

/-- next goes on while there is another row. -/
theorem next_eq {r : MysqlResult} {k : Nat} (hcur : r.iCurRow = k)
    (hnum : r.iRowNum = r.rows.length) (hsize : r.rows.length < Int32.maxValue.toInt)
    (hk : k ≤ r.rows.length) :
    r.next = (decide (k < r.rows.length), { r with iCurRow := k + 1 }) := by
  have hmax : Int32.maxValue.toInt = 2147483647 := by decide
  have hwrap : Int.bmod (r.iCurRow + 1) UInt32.size = k + 1 := by
    rw [hcur]
    unfold UInt32.size
    exact Int.bmod_eq_of_le (by omega) (by omega)
  unfold next
  simp only [hwrap, hnum]
  by_cases hlt : k < r.rows.length
  · rw [if_neg (by omega), decide_eq_true hlt]
  · rw [if_pos (by omega), decide_eq_false hlt]

/-- The cursor is one ahead of the row it stands at. -/
theorem current_eq {r : MysqlResult} {k : Nat} (hcur : r.iCurRow = k + 1)
    (hsize : k < UInt64.size) : r.current = r.rows[k]? := by
  have hk : toSize (r.iCurRow - 1) = k := by
    unfold toSize
    rw [hcur, Int.add_sub_cancel, ← Int.natCast_emod, Int.toNat_natCast, Nat.mod_eq_of_lt hsize]
  unfold current
  rw [hk]

/-- **The loop goes through the rows that are left**, in order, and ends. -/
theorem readAll_left {T : Type*} (extract : List Char → T → T) {index : Int} {n : Nat}
    (hindex : 0 ≤ index) (hne : index ≠ n) (left : List Row) :
    ∀ {r : MysqlResult} {seen : List Row} (value : T), r.rows = seen ++ left →
      r.iCurRow = seen.length → r.iNumFields = n → r.iRowNum = r.rows.length →
      r.rows.length < Int32.maxValue.toInt → (∀ row ∈ left, row.length = n) →
      ∃ visits, (∀ fuel, left.length < fuel → r.readAll extract index fuel value = some visits)
        ∧ visits.map Visit.row = left ∧ ∀ visit ∈ visits, visit.Right extract n index := by
  induction left with
  | nil =>
      intro r seen value hrows hcur hfields hnum hsize _
      rw [List.append_nil] at hrows
      have hnext := next_eq hcur hnum hsize (by rw [hrows])
      refine ⟨[], ?_, rfl, by simp⟩
      intro fuel hfuel
      obtain ⟨m, rfl⟩ : ∃ m, fuel = m + 1 := Nat.exists_eq_succ_of_ne_zero (by omega)
      rw [readAll, hnext, hrows]
      simp
  | cons row left ih =>
      intro r seen value hrows hcur hfields hnum hsize hwidth
      have hmax : Int32.maxValue.toInt = 2147483647 := by decide
      have hlen : r.rows.length = seen.length + (left.length + 1) := by
        rw [hrows, List.length_append, List.length_cons]
      have hnext := next_eq hcur hnum hsize (by omega)
      rw [decide_eq_true (by omega : seen.length < r.rows.length)] at hnext
      -- the cursor stands at the next row
      have hrow : MysqlResult.current { r with iCurRow := seen.length + 1 } = some row := by
        rw [current_eq (k := seen.length) rfl (by unfold UInt64.size; omega)]
        show r.rows[seen.length]? = some row
        rw [hrows, List.getElem?_append_right (Nat.le_refl _), Nat.sub_self]
        rfl
      obtain ⟨c, hget, hright⟩ := @getColumn_spec T extract index n hindex hne
        { r with iCurRow := seen.length + 1 } hfields row hrow
        (hwidth row List.mem_cons_self) value
      obtain ⟨visits, hrun, hvisits, hall⟩ := @ih { r with iCurRow := seen.length + 1 }
        (seen ++ [row]) c.2 (by simp [hrows]) (by simp) hfields hnum hsize
        (fun row' hmem => hwidth row' (List.mem_cons_of_mem _ hmem))
      refine ⟨⟨row, c.1, c.2⟩ :: visits, ?_, by rw [List.map_cons, hvisits],
        List.forall_mem_cons.mpr ⟨hright, hall⟩⟩
      intro fuel hfuel
      obtain ⟨m, rfl⟩ : ∃ m, fuel = m + 1 := Nat.exists_eq_succ_of_ne_zero (by omega)
      rw [List.length_cons] at hfuel
      rw [readAll, hnext, if_pos rfl, hrow, Option.bind_some, hget, Option.bind_some,
        hrun m (by omega), Option.map_some]

/-- A result set read by the loop: query hands over the result that is built of it, the loop
ends and no access leaves the rows or the cells of a row; it goes through `rows` in order;
getColumn returns true exactly for an index below the number of fields and a cell that is
not NULL, and the value is then as `holds` wants it for the text. -/
def Reads (presult : ResultSet) (index : Int) (v : List Char) (rows : List Row)
    (holds : List Char → List Char → Prop) : Prop :=
  ∃ r visits, (∀ myResult, MysqlConn.query 0 (some presult) myResult = some (true, r))
    ∧ (∀ fuel, presult.rows.length < fuel → r.readAll extractWord index fuel v = some visits)
    ∧ visits.map Visit.row = rows
    ∧ ∀ visit ∈ visits,
        (visit.ret = true ↔ index < presult.numFields
          ∧ ∃ text, visit.row[index.toNat]? = some (some text))
        ∧ ∀ text, visit.row[index.toNat]? = some (some text) → holds text visit.value

/-- The result that is built: the rows are counted right when an int holds their number. -/
theorem new_eq {presult : ResultSet} (hfields : presult.rows ≠ [] → 0 < presult.numFields)
    (hint : presult.numFields ≤ Int32.maxValue.toInt)
    (hrows : presult.rows.length < Int32.maxValue.toInt) :
    new (some presult) = some ⟨presult.numFields, presult.rows.filter kept, 0,
      (presult.rows.filter kept).length⟩ := by
  have hmax : Int32.maxValue.toInt = 2147483647 := by decide
  have hle : (presult.rows.filter kept).length ≤ presult.rows.length :=
    List.length_filter_le _ _
  have hfetch : fetch presult.rows = some (presult.rows.filter kept) := by
    refine fetch_eq _ ?_
    intro row hmem hnil
    have hwidth := presult.width row hmem
    have hpos := hfields (List.ne_nil_of_mem hmem)
    rw [hnil, List.length_nil] at hwidth
    omega
  show (fetch presult.rows).map (fun rows => (⟨toInt presult.numFields, rows, 0,
    toInt rows.length⟩ : MysqlResult)) = _
  rw [hfetch, Option.map_some, toInt_small _ (by unfold UInt32.size; omega),
    toInt_small _ (by unfold UInt32.size; omega)]

/-- **A result is read** row by row: the loop goes through the rows whose first cell is not
NULL, for every column but the one behind the last, and the value is the first word of the
cell. -/
theorem result_reads (presult : ResultSet)
    (hfields : presult.rows ≠ [] → 0 < presult.numFields)
    (hint : presult.numFields ≤ Int32.maxValue.toInt)
    (hrows : presult.rows.length < Int32.maxValue.toInt) (index : Int) (hindex : 0 ≤ index)
    (hne : index ≠ presult.numFields) (v : List Char) :
    Reads presult index v (presult.rows.filter fun row => row[0]? ≠ some none)
      fun text value => ∀ word, IsFirstWord word (cString text) → value = word := by
  have hle : (presult.rows.filter kept).length ≤ presult.rows.length :=
    List.length_filter_le _ _
  have hsize : ((presult.rows.filter kept).length : Int) < Int32.maxValue.toInt := by omega
  have hwidth : ∀ row ∈ presult.rows.filter kept, row.length = presult.numFields :=
    fun row hmem => presult.width row (List.mem_of_mem_filter hmem)
  obtain ⟨visits, hrun, hvisits, hall⟩ := @readAll_left (List Char) extractWord index
    presult.numFields hindex hne (presult.rows.filter kept)
    ⟨presult.numFields, presult.rows.filter kept, 0, (presult.rows.filter kept).length⟩ [] v
    rfl rfl rfl rfl hsize hwidth
  refine ⟨_, visits, ?_, fun fuel hfuel => hrun fuel (by omega), hvisits, ?_⟩
  · intro myResult
    unfold MysqlConn.query
    rw [if_neg (by simp), if_neg (by simp), new_eq hfields hint hrows]
    rfl
  · intro visit hmem
    refine ⟨(hall visit hmem).ret, ?_⟩
    intro text htext word hword
    obtain ⟨before, hvalue⟩ := (hall visit hmem).value text htext
    rw [hvalue]
    unfold extractWord
    rw [readWord_of_isFirstWord hword]
    rfl

/-- Two fields and four rows, the second of which starts with a NULL. -/
def smallSet : ResultSet where
  numFields := 2
  rows := [[some "1".toList, some "a b".toList], [none, some "c".toList],
    [some "2".toList, some []], [some "3".toList, none]]
  width := by decide

theorem result_reads_small :
    Reads smallSet 1 [] [[some "1".toList, some "a b".toList], [some "2".toList, some []],
        [some "3".toList, none]]
      fun text value => ∀ word, IsFirstWord word (cString text) → value = word :=
  result_reads smallSet (by decide) (by decide) (by decide) 1 (by decide) (by decide) []

/-- The second row starts with a NULL and is not visited.  Besides, a text with a blank loses
its second word, an empty text leaves the value of the row before, and the index behind
the last field reads behind the row. -/
theorem result_misread :
    (¬ ∀ (presult : ResultSet) (index : Int) (v : List Char), 0 ≤ index →
        Reads presult index v presult.rows fun text value => value = text)
      ∧ (new (some smallSet)).bind (readAll extractWord 1 4 [])
        = some [⟨[some "1".toList, some "a b".toList], true, "a".toList⟩,
            ⟨[some "2".toList, some []], true, "a".toList⟩,
            ⟨[some "3".toList, none], false, "a".toList⟩]
      ∧ (new (some smallSet)).bind (readAll extractWord 2 4 []) = none := by
  refine ⟨?_, by decide, by decide⟩
  intro h
  obtain ⟨r, visits, hquery, hrun, hvisits, -⟩ := h smallSet 1 [] (by decide)
  have hnew : MysqlConn.query 0 (some smallSet) ⟨0, [], 0, 0⟩ = some (true,
      ⟨2, [[some "1".toList, some "a b".toList], [some "2".toList, some []],
        [some "3".toList, none]], 0, 3⟩) := by decide
  obtain rfl := (Prod.mk.inj (Option.some.inj (hnew.symm.trans (hquery _)))).2
  have hrows : ((readAll extractWord 1 5 []
      ⟨2, [[some "1".toList, some "a b".toList], [some "2".toList, some []],
        [some "3".toList, none]], 0, 3⟩).map fun visits => visits.map Visit.row)
      = some smallSet.rows := by
    rw [hrun 5 (by decide), Option.map_some, hvisits]
  exact absurd hrows (by decide)

/-! ## §6. Columns of integers. -/

/-- `>>` to an int, which makes `failed` of a text without a number. -/
def extractInt (failed : List Char → Int → Int) (text : List Char) (value : Int) : Int :=
  (readInt text).getD (failed text value)

/-- What the caller has after a turn: nothing when getColumn returned false. -/
def Visit.got {T : Type*} (visit : Visit T) : Option T :=
  if visit.ret then some visit.value else none

/-- A decimal text is printed whole. -/
theorem cString_decimalInt (i : Int) : cString (decimalInt i) = decimalInt i := by
  have hnul : '\x00' ∉ decimalInt i := not_mem_decimalInt (by decide) (by decide)
  unfold cString
  refine List.takeWhile_eq_self_iff.mpr fun c hc => ?_
  have hne : c ≠ '\x00' := fun he => hnul (he ▸ hc)
  simpa using hne

/-- A cell of such a column: NULL, or the value in decimal. -/
def intCell (value : Option Int32) : Cell := value.map fun k => decimalInt k.toInt

/-- What a right turn has read from such a cell. -/
theorem Visit.Right.got_int {failed : List Char → Int → Int} {n : Nat} {index : Int}
    {visit : Visit Int} (h : visit.Right (extractInt failed) n index) (hlt : index < n)
    {value : Option Int32} (hcell : visit.row[index.toNat]? = some (intCell value)) :
    visit.got = value.map Int32.toInt := by
  cases value with
  | none =>
      have hret : visit.ret ≠ true := by
        intro hret
        obtain ⟨-, text, htext⟩ := h.ret.mp hret
        exact absurd (hcell.symm.trans htext) (by simp [intCell])
      simp [got, hret]
  | some k =>
      obtain ⟨before, hvalue⟩ := h.value _ hcell
      rw [cString_decimalInt, extractInt, readInt_decimalInt] at hvalue
      have hret : visit.ret = true := h.ret.mpr ⟨hlt, _, hcell⟩
      simp [got, hret, hvalue]

/-- All turns, over the cells of the column. -/
theorem map_got {failed : List Char → Int → Int} {n : Nat} {index : Int} (hlt : index < n)
    (visits : List (Visit Int)) :
    (∀ visit ∈ visits, visit.Right (extractInt failed) n index) →
      ∀ column : List (Option Int32),
        visits.map (fun visit => visit.row[index.toNat]?)
          = column.map (fun value => some (intCell value)) →
        visits.map Visit.got = column.map fun value => value.map Int32.toInt := by
  induction visits with
  | nil =>
      intro _ column hcolumn
      obtain rfl : column = [] := by simpa using hcolumn.symm
      rfl
  | cons visit visits ih =>
      intro hall column hcolumn
      cases column with
      | nil => exact absurd hcolumn (by simp)
      | cons value column =>
          simp only [List.map_cons, List.cons.injEq] at hcolumn
          obtain ⟨hright, hrest⟩ := List.forall_mem_cons.mp hall
          rw [List.map_cons, List.map_cons, hright.got_int hlt hcolumn.1,
            ih hrest column hcolumn.2]

/-- **A column of ints is read back**: when no row starts with a NULL, the loop over the column
goes through all rows in order, with the value of each row or, for a NULL, with getColumn
returning false. -/
theorem int_column_reads (failed : List Char → Int → Int) (presult : ResultSet)
    (hint : presult.numFields ≤ Int32.maxValue.toInt)
    (hrows : presult.rows.length < Int32.maxValue.toInt) {index : Nat}
    (hindex : index < presult.numFields) (hfirst : ∀ row ∈ presult.rows, row[0]? ≠ some none)
    (column : List (Option Int32))
    (hcolumn : presult.rows.map (fun row => row[index]?)
      = column.map fun value => some (intCell value)) (v : Int) :
    ∃ r visits, (∀ myResult, MysqlConn.query 0 (some presult) myResult = some (true, r))
      ∧ (∀ fuel, presult.rows.length < fuel →
          r.readAll (extractInt failed) index fuel v = some visits)
      ∧ visits.map Visit.row = presult.rows
      ∧ visits.map Visit.got = column.map fun value => value.map Int32.toInt := by
  have hkept : presult.rows.filter kept = presult.rows :=
    List.filter_eq_self.mpr fun row hmem => by simpa [kept] using hfirst row hmem
  have hnew := new_eq (fun _ => by omega) hint hrows
  rw [hkept] at hnew
  obtain ⟨visits, hrun, hvisits, hall⟩ := @readAll_left Int (extractInt failed) index
    presult.numFields (by omega) (by omega) presult.rows
    ⟨presult.numFields, presult.rows, 0, presult.rows.length⟩ [] v rfl rfl rfl rfl hrows
    presult.width
  refine ⟨_, visits, ?_, hrun, hvisits, ?_⟩
  · intro myResult
    unfold MysqlConn.query
    rw [if_neg (by simp), if_neg (by simp), hnew]
    rfl
  · rw [← hvisits, List.map_map] at hcolumn
    exact map_got (by omega) visits hall column hcolumn

/-- A column with a NULL in the second row. -/
theorem int_column_reads_null :
    ∃ (r : MysqlResult) (visits : List (Visit Int)),
      r.readAll (extractInt fun _ _ => 0) 1 4 7 = some visits
        ∧ visits.map Visit.got = [some 12, none, some (-3)] := by
  obtain ⟨r, visits, -, hrun, -, hgot⟩ := int_column_reads (fun _ _ => 0)
    ⟨2, [[some "a".toList, some "12".toList], [some "b".toList, none],
      [some "c".toList, some "-3".toList]], by decide⟩ (by decide) (by decide)
    (by decide : 1 < 2) (by decide) [some 12, none, some (-3)] (by decide) 7
  exact ⟨r, visits, hrun 4 (by decide), hgot⟩

end MysqlResult

end TcpFramework
