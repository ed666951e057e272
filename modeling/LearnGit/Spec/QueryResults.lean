import LearnGit.Native.MysqlDB

/-!
# What a query returns

`query_base` reads a result set through one buffer of 1024 bytes for each column, and every
buffer is read as a C string. So the rows come back as they are exactly if the result set
has nothing but texts that such a buffer holds.

## Key results

- `fetchLoop_texts`: rows without NULLs, up to the first one with a text that is too long
- `fits_of_mem_fetchLoop`: no other texts than those that fit come out of the loop
- `returnsWhole_iff`: the result sets that are returned whole
-/

namespace Chat.MysqlDB

/-- A text that a buffer holds together with the zero behind it. -/
structure Fits (v : Bytes) : Prop where
  short : v.length < columnSize
  zero_notMem : 0 ∉ v

variable {data : List Buffer} {row : Row} {rows : List Row} {v s : Bytes}

/-! ## One fetch -/

/-- A text that is shorter than the buffer is read up to its first zero. -/
theorem readString_fetchCell (hshort : v.length < columnSize) (buffer : Buffer) :
    readString (fetchCell buffer (some v)) = some (columnString v) := by
  have htake : (fetchCell buffer (some v)).val =
      v ++ 0 :: (buffer.val.drop (v.length + 1)).take (columnSize - v.length - 1) := by
    show (v ++ 0 :: buffer.val.drop (v.length + 1)).take columnSize = _
    obtain ⟨n, hn⟩ : ∃ n, columnSize - v.length = n + 1 := ⟨columnSize - v.length - 1, by omega⟩
    rw [List.take_append, List.take_of_length_le (Nat.le_of_lt hshort), hn, List.take_succ_cons,
      Nat.add_sub_cancel]
  rw [readString, htake, if_pos (by simp), columnString_append_zero]

/-- A string that is read from a buffer leaves room for the zero that ends it. -/
theorem fits_of_readString {buffer : Buffer} (hread : readString buffer = some s) : Fits s := by
  unfold readString at hread
  split at hread
  · next hzero =>
    cases hread
    have hlen := length_columnString_lt hzero
    rw [buffer.property] at hlen
    exact ⟨hlen, zero_notMem_columnString _⟩
  · cases hread

/-- The strings of a row stand where their columns do. -/
theorem getElem?_of_mapM {strings : List Bytes} (hread : data.mapM readString = some strings)
    (c : Nat) : strings[c]? = data[c]?.bind readString := by
  induction data generalizing strings c with
  | nil =>
    cases hread
    rfl
  | cons buffer rest ih =>
    simp only [List.mapM_cons, Option.bind_eq_bind, Option.bind_eq_some_iff, Option.pure_def,
      Option.some.injEq] at hread
    obtain ⟨head, hhead, tail, htail, hstrings⟩ := hread
    subst hstrings
    cases c with
    | zero => simp [hhead]
    | succ c => exact ih htail c

theorem fits_of_mem_mapM {strings : List Bytes} (hread : data.mapM readString = some strings)
    (hs : s ∈ strings) : Fits s := by
  obtain ⟨c, hc⟩ := List.mem_iff_getElem?.mp hs
  rw [getElem?_of_mapM hread c] at hc
  obtain ⟨buffer, -, hbuffer⟩ := Option.bind_eq_some_iff.mp hc
  exact fits_of_readString hbuffer

/-- A fetch of texts overwrites what the buffers have contained. -/
theorem mapM_zipWith_fetchCell {texts : List Bytes} (hlen : data.length = texts.length)
    (hshort : ∀ t ∈ texts, t.length < columnSize) :
    (List.zipWith fetchCell data (texts.map some)).mapM readString =
      some (texts.map columnString) := by
  induction texts generalizing data with
  | nil =>
    rw [List.map_nil, List.zipWith_nil_right]
    rfl
  | cons t rest ih =>
    cases data with
    | nil => cases hlen
    | cons buffer data =>
      have hlen' : data.length = rest.length := by simpa using hlen
      have hrest := ih hlen' fun t' ht' => hshort t' (List.mem_cons_of_mem _ ht')
      rw [List.map_cons, List.zipWith_cons_cons, List.mapM_cons,
        readString_fetchCell (hshort t List.mem_cons_self), hrest]
      rfl

/-! ## The loop -/

theorem not_truncated_map_some {texts : List Bytes} :
    truncated (texts.map some) = false ↔ ∀ t ∈ texts, t.length ≤ columnSize := by
  simp [truncated]

/-- The loop on rows of texts: what `Chat.queryBase` says of it, where no text fills its
    buffer to the last byte. -/
theorem fetchLoop_texts {α : Type} {texts : α → List Bytes} {rs : List α}
    (hlen : ∀ r ∈ rs, data.length = (texts r).length)
    (hfull : ∀ r ∈ rs, ∀ t ∈ texts r, t.length ≠ columnSize) :
    fetchLoop data (rs.map fun r => (texts r).map some) =
      some ((Chat.queryBase texts rs).map fun r => (texts r).map columnString) := by
  -- along the rows, for any contents of the buffers, which every fetch changes
  induction rs generalizing data with
  | nil => rfl
  | cons r rest ih =>
    unfold Chat.queryBase
    rw [List.map_cons]
    simp only [fetchLoop]
    have hlong : truncated ((texts r).map some) = false ↔ ∀ t ∈ texts r, t.length < columnSize := by
      rw [not_truncated_map_some]
      exact forall₂_congr fun t ht => by
        have hne := hfull r List.mem_cons_self t ht
        omega
    split
    · next htrunc =>
      have hstop : ¬ ∀ t ∈ texts r, t.length < columnSize := fun hall => by
        rw [hlong.mpr hall] at htrunc
        cases htrunc
      rw [List.takeWhile_cons_of_neg (by simpa using hstop)]
      rfl
    · next htrunc =>
      have hshort := hlong.mp (by simpa using htrunc)
      have hlen' : ∀ r' ∈ rest,
          (List.zipWith fetchCell data ((texts r).map some)).length = (texts r').length := by
        intro r' hr'
        have hr := hlen r List.mem_cons_self
        have hr'' := hlen r' (List.mem_cons_of_mem _ hr')
        simp only [List.length_zipWith, List.length_map]
        omega
      have hrest := ih hlen' fun r' hr' => hfull r' (List.mem_cons_of_mem _ hr')
      rw [mapM_zipWith_fetchCell (hlen r List.mem_cons_self) hshort, hrest,
        List.takeWhile_cons_of_pos (by simpa using hshort)]
      rfl

/-- Texts that fit come back as they are. -/
theorem fetchLoop_of_fits {rs : List (List Bytes)} (hlen : ∀ r ∈ rs, data.length = r.length)
    (hfits : ∀ r ∈ rs, ∀ t ∈ r, Fits t) :
    fetchLoop data (rs.map fun r => r.map some) = some rs := by
  have hread : Chat.queryBase (fun r => r) rs = rs :=
    Chat.queryBase_of_fits fun r hr t ht => (hfits r hr t ht).short
  have hsame : (rs.map fun r => r.map columnString) = rs := by
    refine (List.map_congr_left fun r hr => ?_).trans (List.map_id rs)
    refine (List.map_congr_left fun t ht => ?_).trans (List.map_id r)
    exact columnString_of_notMem (hfits r hr t ht).zero_notMem
  rw [fetchLoop_texts hlen fun r hr t ht => Nat.ne_of_lt (hfits r hr t ht).short, hread, hsame]

/-- The loop ends at a row that is truncated, or it reads the row and goes on. -/
theorem fetchLoop_cons_cases {result : List (List Bytes)}
    (hloop : fetchLoop data (row :: rows) = some result) :
    result = [] ∨ ∃ strings tail,
      (List.zipWith fetchCell data row).mapM readString = some strings ∧
        fetchLoop (List.zipWith fetchCell data row) rows = some tail ∧
          result = strings :: tail := by
  simp only [fetchLoop] at hloop
  split at hloop
  · exact .inl (Option.some.inj hloop).symm
  · simp only [Option.bind_eq_bind, Option.bind_eq_some_iff, Option.pure_def,
      Option.some.injEq] at hloop
    obtain ⟨strings, hstrings, tail, htail, hresult⟩ := hloop
    exact .inr ⟨strings, tail, hstrings, htail, hresult.symm⟩

/-- Whatever the result set contains, the strings that are returned fit their buffers. -/
theorem fits_of_mem_fetchLoop {result : List (List Bytes)} {strings : List Bytes}
    (hloop : fetchLoop data rows = some result) (hstrings : strings ∈ result) (hs : s ∈ strings) :
    Fits s := by
  induction rows generalizing data result with
  | nil =>
    cases hloop
    exact absurd hstrings List.not_mem_nil
  | cons row rest ih =>
    cases fetchLoop_cons_cases hloop with
    | inl hnil =>
      subst hnil
      exact absurd hstrings List.not_mem_nil
    | inr hread =>
      obtain ⟨head, tail, hhead, htail, hresult⟩ := hread
      subst hresult
      cases List.mem_cons.mp hstrings with
      | inl hself => exact fits_of_mem_mapM hhead (hself ▸ hs)
      | inr hrest => exact ih htail hrest

/-! ## What is returned whole -/

/-- The cell at row `i` and column `c` of what is returned. -/
def cellAt (result : List (List Bytes)) (i c : Nat) : Option Bytes :=
  result[i]?.bind fun strings => strings[c]?

namespace ResultSet

/-- The result set that has the `i`-th row only. -/
def only (rs : ResultSet) (i : Nat) : ResultSet where
  cols := rs.cols
  rows := rs.rows[i]?.toList
  width row hrow := rs.width row (List.mem_of_getElem? (Option.mem_toList.mp hrow))

end ResultSet

/-- A result set and what is returned for it, from buffers that have contained `data`. -/
structure Whole (data : Nat → Buffer) (rs : ResultSet) (result : List (List Bytes)) : Prop where
  length_eq : result.length = rs.rows.length
  width : ∀ strings ∈ result, strings.length = rs.cols
  value : ∀ i c v, rs.cell i c = some (some v) → cellAt result i c = some v
  /-- A NULL does not depend on the other rows: it is what its row is read as on its own. -/
  null : ∀ i c, rs.cell i c = some none → ∃ alone,
    queryBase data (.executed (rs.only i)) = some alone ∧ cellAt result i c = cellAt alone 0 c

/-- The result set is returned whole, whatever the buffers contain at first. -/
def ReturnsWhole (rs : ResultSet) : Prop :=
  ∀ data : Nat → Buffer, ∃ result,
    queryBase data (.executed rs) = some result ∧ Whole data rs result

namespace Whole

variable {data : Nat → Buffer} {rs : ResultSet} {result : List (List Bytes)} {i c : Nat}

/-- There is a string for every cell of the result set. -/
theorem exists_cellAt (hwhole : Whole data rs result) {cell : Option Bytes}
    (hcell : rs.cell i c = some cell) : ∃ s, cellAt result i c = some s := by
  obtain ⟨row, hrow, hc⟩ := Option.bind_eq_some_iff.mp hcell
  have hi : i < result.length := hwhole.length_eq ▸ (List.getElem?_eq_some_iff.mp hrow).1
  have hcol : c < (result[i]).length := by
    rw [hwhole.width _ (List.getElem_mem hi), ← rs.width row (List.mem_of_getElem? hrow)]
    exact (List.getElem?_eq_some_iff.mp hc).1
  exact ⟨(result[i])[c], by simp [cellAt, hi, hcol]⟩

end Whole

/-- A row on its own is read from the buffers that its fetch leaves. -/
theorem exists_buffer_of_single {alone : List (List Bytes)} {c : Nat}
    (hloop : fetchLoop data [row] = some alone) (hs : cellAt alone 0 c = some s) :
    ∃ buffer, (List.zipWith fetchCell data row)[c]? = some buffer ∧
      readString buffer = some s := by
  cases fetchLoop_cons_cases hloop with
  | inl hnil =>
    subst hnil
    cases hs
  | inr hread =>
    obtain ⟨strings, tail, hstrings, -, halone⟩ := hread
    subst halone
    have hc : strings[c]? = some s := hs
    rw [getElem?_of_mapM hstrings c] at hc
    exact Option.bind_eq_some_iff.mp hc

/-- A buffer in which reading does not come to an end. -/
def noZero : Buffer := ⟨List.replicate columnSize 1, List.length_replicate⟩

theorem readString_noZero : readString noZero = none :=
  if_neg fun hmem => absurd (List.eq_of_mem_replicate hmem) (by decide)

/-- Without a value there is nothing that ends the string in an unused buffer. -/
theorem Whole.cell_ne_none {rs : ResultSet} {result : List (List Bytes)} {i c : Nat}
    (hwhole : Whole (fun _ => noZero) rs result) : rs.cell i c ≠ some none := by
  intro hcell
  obtain ⟨s, hs⟩ := hwhole.exists_cellAt hcell
  obtain ⟨alone, halone, heq⟩ := hwhole.null i c hcell
  rw [heq] at hs
  obtain ⟨row, hrow, hc⟩ := Option.bind_eq_some_iff.mp hcell
  have honly : (rs.only i).rows = [row] := by
    simp [ResultSet.only, hrow]
  rw [queryBase, honly] at halone
  obtain ⟨buffer, hbuffer, hread⟩ := exists_buffer_of_single halone hs
  have hnoZero : buffer = noZero := by
    obtain ⟨old, cell, hold, hnull, hfetched⟩ := List.getElem?_zipWith_eq_some.mp hbuffer
    obtain ⟨k, -, hk⟩ := List.mem_map.mp (List.mem_of_getElem? hold)
    rw [hc] at hnull
    cases hnull
    exact hfetched.symm.trans hk.symm
  rw [hnoZero, readString_noZero] at hread
  cases hread

/-- The row that is returned for a row of texts. -/
def Row.texts (row : Row) : List Bytes := row.map fun cell => cell.getD []

/-- Where every cell is a text that fits, the rows come back as they are. -/
theorem queryBase_of_fits {rs : ResultSet}
    (hfits : ∀ row ∈ rs.rows, ∀ cell ∈ row, ∃ v, cell = some v ∧ Fits v) (data : Nat → Buffer) :
    queryBase data (.executed rs) = some (rs.rows.map Row.texts) := by
  -- the result set is one of texts
  have hrows : rs.rows = (rs.rows.map Row.texts).map fun texts => texts.map some := by
    rw [List.map_map]
    refine (List.map_id _).symm.trans (List.map_congr_left fun row hrow => ?_)
    refine (List.map_id row).symm.trans ?_
    rw [Function.comp_apply, Row.texts, List.map_map]
    refine List.map_congr_left fun cell hcell => ?_
    obtain ⟨v, hv, -⟩ := hfits row hrow cell hcell
    rw [hv]
    rfl
  have htexts : ∀ texts ∈ rs.rows.map Row.texts, ∀ t ∈ texts, Fits t := by
    intro texts htexts t ht
    obtain ⟨row, hrow, hrowTexts⟩ := List.mem_map.mp htexts
    subst hrowTexts
    obtain ⟨cell, hcell, hcellText⟩ := List.mem_map.mp ht
    obtain ⟨v, hv, hvfits⟩ := hfits row hrow cell hcell
    subst hv hcellText
    exact hvfits
  have hlen : ∀ texts ∈ rs.rows.map Row.texts,
      ((List.range rs.cols).map data).length = texts.length := by
    intro texts htexts
    obtain ⟨row, hrow, hrowTexts⟩ := List.mem_map.mp htexts
    subst hrowTexts
    simp [Row.texts, rs.width row hrow]
  have hquery : queryBase data (.executed rs) = fetchLoop ((List.range rs.cols).map data)
      ((rs.rows.map Row.texts).map fun texts => texts.map some) := by
    rw [queryBase, ← hrows]
  rw [hquery, fetchLoop_of_fits hlen htexts]

/-- The result sets that are returned whole are those with nothing but texts in them that fit
    the buffers. -/
theorem returnsWhole_iff (rs : ResultSet) :
    ReturnsWhole rs ↔ ∀ row ∈ rs.rows, ∀ cell ∈ row, ∃ v, cell = some v ∧ Fits v := by
  constructor
  · -- a NULL is not read from buffers without a zero, and what is read fits
    intro hwhole row hrow cell hcell
    obtain ⟨i, hi⟩ := List.mem_iff_getElem?.mp hrow
    obtain ⟨c, hc⟩ := List.mem_iff_getElem?.mp hcell
    have hat : rs.cell i c = some cell := by
      simp [ResultSet.cell, hi, hc]
    obtain ⟨result, hquery, hresult⟩ := hwhole fun _ => noZero
    cases cell with
    | none => exact absurd hat hresult.cell_ne_none
    | some v =>
      obtain ⟨strings, hstrings, hv⟩ := Option.bind_eq_some_iff.mp (hresult.value i c v hat)
      exact ⟨v, rfl, fits_of_mem_fetchLoop hquery (List.mem_of_getElem? hstrings)
        (List.mem_of_getElem? hv)⟩
  · intro hfits data
    have hcell (i c : Nat) : cellAt (rs.rows.map Row.texts) i c =
        (rs.cell i c).map fun cell => cell.getD [] := by
      cases hrow : rs.rows[i]? <;> simp [cellAt, ResultSet.cell, hrow, Row.texts]
    refine ⟨rs.rows.map Row.texts, queryBase_of_fits hfits data, by simp, ?_, ?_, ?_⟩
    · intro strings hstrings
      obtain ⟨row, hrow, heq⟩ := List.mem_map.mp hstrings
      rw [← heq, Row.texts, List.length_map]
      exact rs.width row hrow
    · intro i c v hv
      rw [hcell, hv]
      rfl
    · intro i c hnull
      obtain ⟨row, hrow, hc⟩ := Option.bind_eq_some_iff.mp hnull
      obtain ⟨v, hv, -⟩ := hfits row (List.mem_of_getElem? hrow) none (List.mem_of_getElem? hc)
      cases hv

/-- A text of 1025 bytes, and a row behind it. -/
def longFirst : ResultSet where
  cols := 1
  rows := [[some (List.replicate (columnSize + 1) 97)], [some [98]]]
  width row hrow := by
    simp only [List.mem_cons, List.not_mem_nil, or_false] at hrow
    cases hrow <;> simp_all

/-- The loop ends at the long text, and the row behind it is lost as well. -/
theorem not_returnsWhole_longFirst : ¬ ReturnsWhole longFirst := by
  intro hwhole
  obtain ⟨result, hquery, hresult⟩ := hwhole fun _ => noZero
  have hempty : queryBase (fun _ => noZero) (.executed longFirst) = some [] := by
    simp [queryBase, longFirst, fetchLoop, truncated]
  rw [hempty] at hquery
  cases hquery
  exact absurd hresult.length_eq (by decide)

end Chat.MysqlDB
