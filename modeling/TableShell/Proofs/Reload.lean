import TableShell.Proofs.QueryLine
import TableShell.Proofs.ReadBack
import TableShell.Proofs.Session

/-!
# Typing printed rows in again

What a print or a line of queries prints of its rows can be typed in again, each row behind an `a`,
and gives a table with those rows (`Reachable.printed_rows_reload`). The new shell needs limits that
the rows keep within, and the lines need a length limit with room for what they hold besides blanks.

That the rows come out as they went in rests on what all tables have in common that can be reached:
no row is left out when it is printed (`Query.evaluate_of_applyAll`), and every value that is printed
is one of the main table (`Table.exists_mem_of_query`), so it is a positive number of 64 bits and is read
back. The rows are added one by one (`attempt_row`), the first of them fixing the width, and the
induction (`after_typing`) is over the rows that are still to come.
-/

namespace TableShell

/-! ### What is printed -/

namespace Query

variable {table result : Table} {queries : List Query}

/-- The table that queries make of a table, one after the other. -/
def applyAll (queries : List Query) (table : Table) : Except Fault Table :=
  queries.foldlM (fun table query ↦ query.apply table) table

/-- What is remarked about queries that go well. -/
def allNotices (queries : List Query) : List String :=
  queries.flatMap fun query ↦ query.notices.map Fault.message

theorem applyAll_cons_eq_ok_iff {query : Query} :
    applyAll (query :: queries) table = .ok result ↔
      ∃ mid, query.apply table = .ok mid ∧ applyAll queries mid = .ok result := by
  rw [applyAll, List.foldlM_cons, Sequence.bind_eq_ok_iff]
  rfl

/-- What is kept by each query is kept by all of them. -/
theorem applyAll_induction (kept : Table → Prop)
    (hquery : ∀ table query result, kept table → Query.apply query table = .ok result → kept result)
    (h : kept table) (hresult : applyAll queries table = .ok result) : kept result := by
  induction queries generalizing table with
  | nil =>
    obtain rfl : table = result := Except.ok.inj hresult
    exact h
  | cons query rest ih =>
    obtain ⟨mid, hmid, hrest⟩ := applyAll_cons_eq_ok_iff.1 hresult
    exact ih (hquery table query mid h hmid) hrest

/-- Queries that go well on a table with positive cells come to their notices and the table that
they make. -/
theorem evaluate_of_applyAll (h : table.Proper) (hresult : applyAll queries table = .ok result) :
    evaluate table.rows.toList table.columns queries =
      (allNotices queries ++ result.lines, none) := by
  induction queries generalizing table with
  | nil =>
    obtain rfl : table = result := Except.ok.inj hresult
    exact h.evaluate_nil
  | cons query rest ih =>
    obtain ⟨mid, hmid, hrest⟩ := applyAll_cons_eq_ok_iff.1 hresult
    have hnotices : allNotices (query :: rest) =
        query.notices.map Fault.message ++ allNotices rest := List.flatMap_cons
    rw [h.evaluate_cons, hmid]
    dsimp only
    rw [ih (h.of_query hmid) hrest, hnotices, List.append_assoc]

/-- What is remarked about queries is that projections were cut. -/
theorem exists_cut_of_mem_allNotices {notice : String} (h : notice ∈ allNotices queries) :
    ∃ requested kept, notice = (Fault.projectionCut requested kept).message := by
  obtain ⟨query, -, hnotice⟩ := List.mem_flatMap.1 h
  obtain ⟨fault, hfault, rfl⟩ := List.mem_map.1 hnotice
  obtain ⟨requested, kept, rfl⟩ := Shell.exists_eq_cut_of_mem_notices hfault
  exact ⟨requested, kept, rfl⟩

end Query

namespace Shell

variable {limits : Limits} {shell : Shell} {line : String} {result : Table}

/-- The table whose rows a line shows, if all goes well: the main table for a print, and what the
queries make of it for a line of queries. -/
inductive Shows (shell : Shell) : String → Table → Prop
  | print : Shows shell "?" shell.table
  | queries {line : String} {queries : List Query} {result : Table} (hne : queries ≠ [])
      (hread : Command.readLine shell.caps line.toList = .ok (queries.map .query))
      (hresult : Query.applyAll queries shell.table = .ok result) : Shows shell line result

namespace Shows

/-- The table that a line shows is well-formed and has positive cells, and the values in it are
values of the main table. -/
theorem proper (h : shell.Shows line result) (hsound : Sound limits shell) :
    result.Proper ∧ ∀ row ∈ result.rows, ∀ n ∈ row, ∃ old ∈ shell.table.rows, n ∈ old := by
  cases h with
  | print => exact ⟨hsound.proper, fun row hrow n hn ↦ ⟨row, hrow, hn⟩⟩
  | queries hne hread hresult =>
    refine Query.applyAll_induction (fun table ↦ table.Proper ∧
      ∀ row ∈ table.rows, ∀ n ∈ row, ∃ old ∈ shell.table.rows, n ∈ old) ?_
      ⟨hsound.proper, fun row hrow n hn ↦ ⟨row, hrow, hn⟩⟩ hresult
    rintro table query next ⟨hproper, hvalues⟩ hnext
    refine ⟨hproper.of_query hnext, fun row hrow n hn ↦ ?_⟩
    obtain ⟨old, hold, hmem⟩ := Table.exists_mem_of_query hproper.wellFormed hnext hrow hn
    exact hvalues old hold n hmem

/-- The values in a table that is shown are positive numbers of 64 bits. -/
theorem cell_bounds (h : shell.Shows line result) (hsound : Sound limits shell) {row : Row}
    (hrow : row ∈ result.rows) {n : Int} (hn : n ∈ row) : 1 ≤ n ∧ n ≤ 0x7FFFFFFFFFFFFFFF := by
  obtain ⟨old, hold, hmem⟩ := (h.proper hsound).2 row hrow n hn
  exact hsound.cell_bounds old hold n hmem

end Shows

/-- A print shows the main table. -/
theorem attempt_print (shell : Shell) : shell.attempt "?" = ⟨shell, shell.table.lines, none⟩ := by
  have hread : Command.readLine shell.caps "?".toList = .ok [.print] := rfl
  have hpipes : Command.pipesIn "?".toList = 0 := rfl
  rw [attempt, hread, hpipes]
  dsimp only
  rw [run_alone]
  rfl

namespace Shows

/-- A table with a row and a column is shown by the texts of its rows. -/
theorem lines_eq (h : shell.Shows line result) (hsound : Sound limits shell)
    (hrows : result.rows ≠ #[]) (hcolumns : result.columns ≠ 0) :
    result.lines = result.rows.toList.map Row.text := by
  rw [(h.proper hsound).1.lines_eq, Query.present, if_neg]
  exact not_or_intro (mt Array.toList_eq_nil_iff.1 hrows) hcolumns

/-- If there is a value to show, the main table has rows. -/
theorem rows_ne_nil (h : shell.Shows line result) (hsound : Sound limits shell)
    (hrows : result.rows ≠ #[]) (hcolumns : result.columns ≠ 0) :
    shell.table.rows.toList ≠ [] := by
  obtain ⟨hproper, hvalues⟩ := h.proper hsound
  obtain ⟨row, hrow⟩ := Array.exists_mem_of_ne_empty _ hrows
  have hlength : row.length = result.columns := hproper.wellFormed.length_eq hrow
  obtain ⟨n, hn⟩ := List.exists_mem_of_length_pos
    (hlength ▸ Nat.pos_of_ne_zero hcolumns : 0 < row.length)
  obtain ⟨old, hold, -⟩ := hvalues row hrow n hn
  exact List.ne_nil_of_mem (Array.mem_toList_iff.2 hold)

/-- A line that shows a table with rows and columns is answered with the texts of the rows, after
the notices that projections were cut. -/
theorem attempt_eq (h : shell.Shows line result) (hsound : Sound limits shell)
    (hrows : result.rows ≠ #[]) (hcolumns : result.columns ≠ 0) :
    ∃ notices : List String,
      (∀ notice ∈ notices, ∃ requested kept,
        notice = (Fault.projectionCut requested kept).message) ∧
      shell.attempt line = ⟨shell, notices ++ result.rows.toList.map Row.text, none⟩ := by
  have hmain := h.rows_ne_nil hsound hrows hcolumns
  rw [← h.lines_eq hsound hrows hcolumns]
  cases h with
  | print => exact ⟨[], nofun, attempt_print shell⟩
  | @queries _ queries _ hne hread hresult =>
    have hevaluated : Query.evaluate shell.table.rows.toList shell.columns queries =
        (Query.allNotices queries ++ result.lines, none) :=
      Query.evaluate_of_applyAll hsound.proper hresult
    refine ⟨Query.allNotices queries, fun _ ↦ Query.exists_cut_of_mem_allNotices, ?_⟩
    rw [attempt_of_queries hsound hne hread, Query.evaluateLine, if_neg hmain, hevaluated]

end Shows

end Shell

/-! ### What is typed in again -/

/-- To type in a printed line again: behind an `a`, and through a length limit. -/
def Turn.typing (printed : String) (limit : Nat) : Turn :=
  .answer (Entry.strip limit ('a' :: printed.toList)).text

namespace Shell

variable {limits : Limits} {shell : Shell} {line : String} {result : Table} {rows : List Row}
  {row : Row} {width : Nat} {typed : List (String × Nat)}

/-- A shell that can take so many rows of a width. -/
structure Ready (shell : Shell) (width count : Nat) : Prop where
  width_pos : 0 < width
  room : shell.table.size + count ≤ shell.table.capacity
  width_eq : shell.table.width = some width ∨
    shell.table.width = none ∧ width ≤ shell.limits.columns

/-- The shell with rows of a width at the end of the main table. -/
def extended (shell : Shell) (width : Nat) (rows : List Row) : Shell :=
  { shell with
    table := ⟨shell.table.rows ++ rows, if rows = [] then shell.table.width else some width,
      shell.table.capacity⟩ }

theorem extended_nil (shell : Shell) (width : Nat) : shell.extended width [] = shell := by
  simp [extended]

theorem extended_cons (shell : Shell) (width : Nat) (row : Row) (rows : List Row) :
    (shell.extended width [row]).extended width rows = shell.extended width (row :: rows) := by
  simp [extended]

theorem Ready.mono {count fewer : Nat} (h : shell.Ready width count) (hle : fewer ≤ count) :
    shell.Ready width fewer :=
  ⟨h.width_pos, Nat.le_trans (Nat.add_le_add_left hle _) h.room, h.width_eq⟩

theorem Ready.extended {count : Nat} (h : shell.Ready width (rows.length + count)) :
    (shell.extended width rows).Ready width count := by
  obtain ⟨hpos, hroom, hwidth⟩ := h
  refine ⟨hpos, ?_, ?_⟩
  · have hsize : (shell.table.rows ++ rows).size = shell.table.size + rows.length := by
      rw [Table.size, ← Array.length_toList, Array.toList_appendList, List.length_append,
        Array.length_toList]
    show (shell.table.rows ++ rows).size + count ≤ shell.table.capacity
    omega
  · show (if rows = [] then shell.table.width else some width) = some width ∨
      (if rows = [] then shell.table.width else some width) = none ∧ width ≤ shell.limits.columns
    split
    · exact hwidth
    · exact .inl rfl

/-- A row that is typed in again is added as it is, and nothing is shown but its echo. -/
theorem attempt_row {count : Nat} (h : shell.Ready row.length (count + 1))
    (hcells : ∀ n ∈ row, 1 ≤ n ∧ n ≤ 0x7FFFFFFFFFFFFFFF) :
    shell.attempt (String.ofList ('a' :: Text.solid row.text.toList)) =
      ⟨shell.extended row.length [row], [addedMark ++ row.text], none⟩ := by
  obtain ⟨hpos, hroom, hwidth⟩ := h
  have hread : Command.readLine shell.caps (String.ofList ('a' :: Text.solid row.text.toList)).toList
      = .ok [.add ⟨row.take shell.caps.row, row.length⟩] := by
    rw [String.toList_ofList]
    exact Command.readLine_row (List.length_pos_iff.1 hpos) hcells shell.caps
  have hfits : shell.table.Fits shell.limits.columns row.length := by
    rcases hwidth with hwidth | ⟨hwidth, hle⟩
    · simp [Table.Fits, hwidth]
    · simpa [Table.Fits, hwidth] using hle
  have hstored : shell.table.stored row = row := by
    rw [Table.stored]
    rcases hwidth with hwidth | ⟨hwidth, -⟩
    · rw [hwidth, Option.getD_some, List.take_length]
    · rw [hwidth, Option.getD_none, List.take_length]
  have hadd : shell.table.add ⟨row.take shell.caps.row, row.length⟩ shell.limits.columns =
      .ok ⟨⟨shell.table.rows.push row, some row.length, shell.table.capacity⟩, row, none⟩ := by
    refine Table.add_taken_eq_ok_iff.2 ⟨by omega, hfits, ?_⟩
    rw [Table.grownBy, hstored, if_neg (Nat.lt_irrefl _)]
  have hextended : shell.extended row.length [row] = { shell with
      table := ⟨shell.table.rows.push row, some row.length, shell.table.capacity⟩ } := by
    simp [extended]
  rw [attempt_of_add hread, hadd, hextended]
  rfl

/-- So it is when it comes through a length limit that leaves room for it. -/
theorem reply_typing {count limit : Nat} (h : shell.Ready row.length (count + 1))
    (hcells : ∀ n ∈ row, 1 ≤ n ∧ n ≤ 0x7FFFFFFFFFFFFFFF)
    (hfits : (Text.solid ('a' :: row.text.toList)).length ≤ limit) :
    (Turn.typing row.text limit).reply shell =
      ⟨shell.extended row.length [row], [addedMark ++ row.text], none⟩ := by
  rw [Turn.typing, Entry.strip_row hfits]
  show shell.answer (String.ofList ('a' :: Text.solid row.text.toList)) = _
  rw [answer, attempt_row h hcells]
  rfl

/-- The rows that are typed in again are added one after the other. -/
theorem after_typing (h : shell.Ready width rows.length)
    (hrows : ∀ row ∈ rows, row.length = width ∧ ∀ n ∈ row, 1 ≤ n ∧ n ≤ 0x7FFFFFFFFFFFFFFF)
    (htyped : typed.map Prod.fst = rows.map Row.text)
    (hfits : ∀ e ∈ typed, (Text.solid ('a' :: e.1.toList)).length ≤ e.2) :
    shell.after (typed.map fun e ↦ Turn.typing e.1 e.2) = shell.extended width rows := by
  induction rows generalizing shell typed with
  | nil =>
    obtain rfl : typed = [] := List.map_eq_nil_iff.1 htyped
    exact (extended_nil shell width).symm
  | cons row rest ih =>
    cases typed with
    | nil => cases htyped
    | cons entry more =>
      obtain ⟨text, limit⟩ := entry
      obtain ⟨htext, hmore⟩ := List.cons.inj htyped
      obtain rfl : text = row.text := htext
      obtain ⟨hfit, hfits⟩ := List.forall_mem_cons.1 hfits
      obtain ⟨⟨rfl, hcells⟩, hrows⟩ := List.forall_mem_cons.1 hrows
      have hready : shell.Ready row.length ([row].length + rest.length) := by
        rw [List.length_singleton, Nat.add_comm]
        exact h
      rw [List.map_cons, after_cons, reply_typing h hcells hfit,
        ih hready.extended hrows hmore hfits, extended_cons]

/-- A new shell can take rows that keep within its limits. -/
theorem Ready.start {fresh : Limits} (hpos : 0 < width) (hwidth : width ≤ fresh.columns)
    {count : Nat} (hcount : count ≤ fresh.rows) : (start fresh).Ready width count := by
  refine ⟨hpos, ?_, .inr ⟨rfl, hwidth⟩⟩
  show 0 + count ≤ fresh.rows
  omega

/-- The notice that there is no data, typed in again, adds nothing. -/
theorem after_typing_emptyNotice (shell : Shell) {limit : Nat}
    (hfits : (Text.solid ('a' :: Table.emptyNotice.toList)).length ≤ limit) :
    shell.after [Turn.typing Table.emptyNotice limit] = shell := by
  have hlast : ('a' :: Table.emptyNotice.toList).getLast? = some '.' := by decide +kernel
  have hstrip : Entry.strip limit ('a' :: Table.emptyNotice.toList) = ⟨"aEmptydata.", 0⟩ := by
    rw [Entry.strip_of_fits hfits]
    · decide +kernel
    · rw [hlast]
      rintro _ ⟨⟩
      decide +kernel
  rw [after_cons, after_nil, Turn.typing, hstrip]
  refine (Reply.shell_report _).trans (shell_attempt_of_not_add fun fields hread ↦ ?_)
  obtain ⟨argument, values, hline, -, -, htokens, -⟩ := Command.readLine_eq_add_iff.1 hread
  obtain rfl : "Emptydata.".toList = argument := (List.cons.inj hline).2
  have hnone : (Token.split (· == ',') "Emptydata.".toList).map Numeral.positive? = [none] := by
    decide +kernel
  rw [hnone] at htokens
  cases values with
  | nil => cases htokens
  | cons n rest => cases (List.cons.inj htokens).1

/-- A new shell after printed lines have been typed in again, each through a length limit of its
own. -/
def reloaded (fresh : Limits) (typed : List (String × Nat)) : Shell :=
  (start fresh).after (typed.map fun e ↦ Turn.typing e.1 e.2)

/-- What typing printed lines in again comes to if a new shell takes all of them. -/
structure Reloads (fresh : Limits) (typed : List (String × Nat)) (table : Table) : Prop where
  /-- Nothing of a line is in excess, it is answered with its echo alone, and the run goes on. -/
  line_eq : ∀ before text limit rest, typed = before ++ (text, limit) :: rest →
    let entry := Entry.strip limit ('a' :: text.toList)
    entry.excess = 0 ∧
    ∀ {σ : Type} [AcceptingDisplay σ] (display : σ),
      (reloaded fresh before).answerOn display entry.text =
        ⟨reloaded fresh (before ++ [(text, limit)]),
          AcceptingDisplay.accept display ("Added record: " ++ text), none⟩
  table_eq : (reloaded fresh typed).table = table
  /-- A print shows the lines that were typed in. -/
  print_eq : ∀ {σ : Type} [AcceptingDisplay σ] (display : σ),
    (reloaded fresh typed).answerOn display "?" =
      ⟨reloaded fresh typed, (typed.map Prod.fst).foldl AcceptingDisplay.accept display, none⟩

/-- On a display that takes every line, a print shows the lines of the main table. -/
theorem answerOn_print {σ : Type} [AcceptingDisplay σ] (shell : Shell) (display : σ) :
    shell.answerOn display "?" =
      ⟨shell, shell.table.lines.foldl AcceptingDisplay.accept display, none⟩ := by
  rw [answerOn_eq_deliver, answer, attempt_print]
  exact Reply.deliver_accepting _ display

/-- Rows of a width that keep within the limits of a new shell can be typed in again. -/
theorem reloads_of_rows {fresh : Limits} (hne : rows ≠ []) (hpos : 0 < width)
    (hwidth : width ≤ fresh.columns) (hcount : rows.length ≤ fresh.rows)
    (hrows : ∀ row ∈ rows, row.length = width ∧ ∀ n ∈ row, 1 ≤ n ∧ n ≤ 0x7FFFFFFFFFFFFFFF)
    (htyped : typed.map Prod.fst = rows.map Row.text)
    (hfits : ∀ e ∈ typed, (Text.solid ('a' :: e.1.toList)).length ≤ e.2) :
    Reloads fresh typed ⟨rows.toArray, some width, fresh.rows⟩ := by
  have hready : (start fresh).Ready width rows.length := .start hpos hwidth hcount
  have htable : (reloaded fresh typed).table = ⟨rows.toArray, some width, fresh.rows⟩ := by
    rw [reloaded, after_typing hready hrows htyped hfits, extended, if_neg hne]
    simp [start, Table.empty]
  refine ⟨fun before text limit rest hsplit ↦ ?_, htable, fun display ↦ ?_⟩
  · -- the line is that of a row, and the rows before it have been added
    subst hsplit
    rw [List.map_append, List.map_cons, eq_comm, List.map_eq_append_iff] at htyped
    obtain ⟨earlier, more, rfl, hearlier, hmore⟩ := htyped
    obtain ⟨row, later, rfl, htext, -⟩ := List.map_eq_cons_iff.1 hmore
    obtain rfl : row.text = text := htext
    obtain ⟨hearlierRows, hrow⟩ := List.forall_mem_append.1 hrows
    obtain ⟨⟨rfl, hcells⟩, -⟩ := List.forall_mem_cons.1 hrow
    obtain ⟨hearlierFits, hfit⟩ := List.forall_mem_append.1 hfits
    have hbefore : reloaded fresh before = (start fresh).extended row.length earlier :=
      after_typing (hready.mono (by simp)) hearlierRows hearlier.symm hearlierFits
    have hrowReady : (reloaded fresh before).Ready row.length (later.length + 1) := by
      rw [hbefore]
      exact Ready.extended (hready.mono (by simp))
    have hlimit : (Text.solid ('a' :: row.text.toList)).length ≤ limit :=
      hfit (row.text, limit) List.mem_cons_self
    have hreply := reply_typing hrowReady hcells hlimit
    have hnext : reloaded fresh (before ++ [(row.text, limit)]) =
        ((Turn.typing row.text limit).reply (reloaded fresh before)).shell := by
      rw [reloaded, List.map_append, after_append]
      rfl
    refine ⟨congrArg Entry.excess (Entry.strip_row hlimit), fun display ↦ ?_⟩
    rw [hnext, answerOn_eq_deliver]
    show ((Turn.typing row.text limit).reply (reloaded fresh before)).deliver display = _
    rw [hreply]
    exact Reply.deliver_accepting _ display
  · have hsound : Sound fresh (reloaded fresh typed) := (Reachable.after .refl _).sound
    have hlines : (reloaded fresh typed).table.lines = typed.map Prod.fst := by
      rw [Shows.print.lines_eq hsound, htable, htyped]
      · rw [htable]
        exact mt (congrArg Array.toList) hne
      · rw [htable]
        exact Nat.ne_of_gt hpos
    rw [answerOn_print, hlines]

/-- The lines of a main table with rows, typed in again into a shell with the same limits, give that
table. -/
theorem table_reloaded_of_rows {fresh : Limits} (hsound : Sound limits shell)
    (hrows : shell.table.rows ≠ #[]) (hcolumns : fresh.columns = limits.columns)
    (hcapacity : fresh.rows = limits.rows) (htyped : typed.map Prod.fst = shell.table.lines)
    (hfits : ∀ e ∈ typed, (Text.solid ('a' :: e.1.toList)).length ≤ e.2) :
    (reloaded fresh typed).table = shell.table := by
  have hwf := hsound.wellFormed
  have hstarted : shell.isStarted := by
    rw [hsound.isStarted_iff, size, Table.size, Array.size_pos_iff]
    exact hrows
  have hpos : 1 ≤ shell.table.columns := hsound.columns_pos hstarted
  have hlines := Shows.print.lines_eq hsound hrows (Nat.ne_of_gt hpos)
  have hwidth : shell.table.width = some shell.table.columns :=
    Table.WellFormed.width_of_hasColumn ⟨Nat.le_refl 1, hpos⟩
  have hreloads : Reloads fresh typed
      ⟨shell.table.rows.toList.toArray, some shell.table.columns, fresh.rows⟩ := by
    refine reloads_of_rows (mt Array.toList_eq_nil_iff.1 hrows) hpos (hcolumns ▸ hsound.columns_le)
      ?_ (fun row hrow ↦ ?_) (htyped.trans hlines) hfits
    · rw [Array.length_toList, hcapacity, ← hsound.capacity_eq]
      exact hwf.size_le
    · have hmem : row ∈ shell.table.rows := Array.mem_toList_iff.1 hrow
      exact ⟨hwf.length_eq hmem, hsound.cell_bounds row hmem⟩
  rw [hreloads.table_eq, Array.toArray_toList, ← hwidth, hcapacity, ← hsound.capacity_eq]

/-- So do those of a main table without rows. -/
theorem table_reloaded_of_no_rows {fresh : Limits} (hsound : Sound limits shell)
    (hrows : shell.table.rows = #[]) (hcapacity : fresh.rows = limits.rows)
    (htyped : typed.map Prod.fst = shell.table.lines)
    (hfits : ∀ e ∈ typed, (Text.solid ('a' :: e.1.toList)).length ≤ e.2) :
    (reloaded fresh typed).table = shell.table := by
  have hnotice : shell.table.lines = [Table.emptyNotice] := by
    rw [Table.lines, if_neg]
    exact fun hdata ↦ hsound.hasData_iff.1 hdata (Array.toList_eq_nil_iff.2 hrows)
  have hwidth : shell.table.width = none := by
    refine Option.not_isSome_iff_eq_none.1 fun hstarted ↦ ?_
    have hsize : 0 < shell.table.rows.size := hsound.isStarted_iff.1 hstarted
    rw [hrows] at hsize
    cases hsize
  rw [hnotice] at htyped
  obtain ⟨⟨text, limit⟩, rfl, htext⟩ := List.map_eq_singleton_iff.1 htyped
  obtain rfl : text = Table.emptyNotice := htext
  have hfit := hfits (Table.emptyNotice, limit) List.mem_cons_self
  show ((start fresh).after [Turn.typing Table.emptyNotice limit]).table = _
  rw [after_typing_emptyNotice (start fresh) hfit]
  obtain ⟨⟨rows, width, capacity⟩, limits'⟩ := shell
  obtain rfl : rows = #[] := hrows
  obtain rfl : width = none := hwidth
  obtain rfl : capacity = limits.rows := hsound.capacity_eq
  rw [← hcapacity]
  rfl

namespace Reachable

/-- The rows that a print or a line of queries prints, typed in again into a new shell that they
keep within the limits of, are added one by one, with nothing in excess and nothing shown but their
echoes, and a print then shows the same rows. What is printed of the main table of a shell, typed in
again into a shell with the same limits, gives an equal table. -/
theorem printed_rows_reload (h : Reachable limits shell) :
    (∀ line result, shell.Shows line result → result.rows ≠ #[] → result.columns ≠ 0 →
      let printed := result.rows.toList.map Row.text
      (∃ notices : List String,
        (∀ notice ∈ notices, ∃ requested kept,
          notice = (Fault.projectionCut requested kept).message) ∧
        ∀ {σ : Type} [AcceptingDisplay σ] (display : σ), shell.attemptOn display line =
          ⟨shell, (notices ++ printed).foldl AcceptingDisplay.accept display, none⟩) ∧
      ∀ (fresh : Limits) (typed : List (String × Nat)),
        result.columns ≤ fresh.columns → result.rows.size ≤ fresh.rows →
        typed.map Prod.fst = printed →
        (∀ e ∈ typed, (Text.solid ('a' :: e.1.toList)).length ≤ e.2) →
        Reloads fresh typed ⟨result.rows, some result.columns, fresh.rows⟩) ∧
    ∀ (fresh : Limits) (typed : List (String × Nat)),
      fresh.columns = limits.columns → fresh.rows = limits.rows →
      (shell.answerOn LineLog.empty "?").display.lines.toList = typed.map Prod.fst →
      (∀ e ∈ typed, (Text.solid ('a' :: e.1.toList)).length ≤ e.2) →
      (reloaded fresh typed).table = shell.table := by
  have hsound := h.sound
  refine ⟨fun line result hshows hrows hcolumns ↦ ⟨?_, fun fresh typed hwidth hcount htyped hfits ↦
    ?_⟩, fun fresh typed hwidth hcount hprint hfits ↦ ?_⟩
  · obtain ⟨notices, hnotices, hattempt⟩ := hshows.attempt_eq hsound hrows hcolumns
    refine ⟨notices, hnotices, fun display ↦ ?_⟩
    rw [attemptOn_eq_deliver, hattempt]
    exact Reply.deliver_accepting _ display
  · have hwf := (hshows.proper hsound).1.wellFormed
    refine reloads_of_rows (mt Array.toList_eq_nil_iff.1 hrows) (Nat.pos_of_ne_zero hcolumns) hwidth
      (by rwa [Array.length_toList]) (fun row hrow ↦ ?_) htyped hfits
    have hmem : row ∈ result.rows := Array.mem_toList_iff.1 hrow
    exact ⟨hwf.length_eq hmem, fun n ↦ hshows.cell_bounds hsound hmem⟩
  · have htyped : typed.map Prod.fst = shell.table.lines := by
      rw [← hprint, answerOn_print, ← Reply.deliver_accepting ⟨shell, shell.table.lines, none⟩,
        Reply.deliver, Display.deliver_lineLog]
      simp [LineLog.empty]
    by_cases hrows : shell.table.rows = #[]
    · exact table_reloaded_of_no_rows hsound hrows hcount htyped hfits
    · exact table_reloaded_of_rows hsound hrows hwidth hcount htyped hfits

/-- Two rows, a projection of them that was cut, and the main table itself. -/
theorem printed_rows_reload_cut_projection :
    let limits : Limits := ⟨3, 2, 2, 100⟩
    let shell := ((((start limits).answerOn LineLog.empty "a10,2,3").shell).answerOn LineLog.empty
      "a3,40,9").shell
    Reachable limits shell ∧
      shell.Shows "p2,1,3" ⟨#[[2, 10], [40, 3]], some 2, 2⟩ ∧
      Reloads ⟨2, 2, 0, 0⟩ [("2, 10", 5), ("40, 3", 9)] ⟨#[[2, 10], [40, 3]], some 2, 2⟩ ∧
      (reloaded limits [("10, 2, 3", 7), ("3, 40, 9", 7)]).table = shell.table := by
  intro limits shell
  have h : Reachable limits shell :=
    (Relation.ReflTransGen.single (.answer LineLog.empty "a10,2,3")).tail
      (.answer LineLog.empty "a3,40,9")
  have hshows : shell.Shows "p2,1,3" ⟨#[[2, 10], [40, 3]], some 2, 2⟩ := by
    have hread : Command.readLine shell.caps "p2,1,3".toList =
        .ok ([.project [2, 1] 3].map .query) := by
      decide +kernel
    exact .queries (by decide) hread (by decide +kernel)
  refine ⟨h, hshows, ?_, ?_⟩
  · exact ((printed_rows_reload h).1 _ _ hshows (by decide) (by decide)).2 ⟨2, 2, 0, 0⟩ _
      (by decide) (by decide) (by decide +kernel) (by decide +kernel)
  · exact (printed_rows_reload h).2 limits _ rfl rfl (by decide +kernel) (by decide +kernel)

end Reachable

end Shell

end TableShell
