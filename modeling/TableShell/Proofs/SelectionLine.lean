import TableShell.Proofs.Arguments
import TableShell.Proofs.Reload
import TableShell.Proofs.Table.Selections

/-!
# Lines of selections

A line that writes selections, one a stage. Each stage is read as its condition whether or not there
are others besides it (`Command.readLine_of_writesSelections`), so a single selection and several
ones are answered in the same way: with the rows of the main table that meet each of the conditions
(`attempt_of_writesSelections`). Lines that write the same conditions, in whatever order and however
often, are therefore answered alike (`Reachable.selections_order_free`).

A condition may be written in more than one way, with leading zeros, say, or with a further sign
behind the first one; nothing here depends on how it is done.
-/

namespace TableShell

/-- A relation is known by its sign. -/
theorem Relation.sign_injective {relation other : Relation} (h : relation.sign = other.sign) :
    relation = other :=
  Option.some.inj ((ofSign?_eq_some_iff.2 rfl).symm.trans (ofSign?_eq_some_iff.2 h))

namespace Condition

/-! ### Conditions -/

/-- A text writes a condition if it is in the form of one, with numerals for the column and the
value and the sign of the relation first among its signs. -/
def Writes (text : List Char) (condition : Condition) : Prop :=
  ∃ before left between right after,
    Division text before left between right after condition.column condition.value ∧
      (before ++ between).head? = some condition.relation.sign

/-- The shortest text of a condition. -/
def text (condition : Condition) : String :=
  Numeral.text condition.column ++ condition.relation.sign.toString ++ Numeral.text condition.value

variable {written : List Char} {condition : Condition}

/-- What writes a condition is read as that condition. -/
theorem Writes.read_eq (h : Writes written condition) : read written = .ok condition := by
  obtain ⟨before, left, between, right, after, hdivision, hhead⟩ := h
  obtain ⟨relation, hrelation, hread⟩ := hdivision.read_eq
  have hsign : relation.sign = condition.relation.sign :=
    Option.some.inj (hrelation.symm.trans hhead)
  rw [hread, Relation.sign_injective hsign, Int.toNat_natCast]

/-- There is no pipe in it. -/
theorem Writes.pipe_not_mem (h : Writes written condition) : Command.pipe ∉ written := by
  obtain ⟨before, left, between, right, after, ⟨rfl, hsigns, -, hleft, hright⟩, -⟩ := h
  have hnumeral : ∀ {token : List Char} {n : Int}, Numeral.Denotes token n →
      Command.pipe ∉ token := fun hdenotes hmem ↦
    absurd (hdenotes.forall_mem _ hmem) (by decide)
  have hsign : Command.pipe ∉ before ++ between ++ after := fun hmem ↦
    absurd (hsigns _ hmem) (by decide)
  have hl := hnumeral hleft
  have hr := hnumeral hright
  simp only [List.mem_append, not_or] at hsign ⊢
  exact ⟨⟨⟨⟨hsign.1.1, hl⟩, hsign.1.2⟩, hr⟩, hsign.2⟩

/-- A condition is written by its text, unless a number in it is too great to be read. -/
theorem writes_text (hcolumn : 1 ≤ condition.column ∧ condition.column ≤ 0x7FFFFFFFFFFFFFFF)
    (hvalue : 1 ≤ condition.value ∧ condition.value ≤ 0x7FFFFFFFFFFFFFFF) :
    Writes condition.text.toList condition := by
  refine ⟨[], (Numeral.text condition.column).toList, [condition.relation.sign],
    (Numeral.text condition.value).toList, [], ⟨?_, ?_, List.cons_ne_nil _ _, ?_, ?_⟩, rfl⟩
  · rw [text, String.toList_append, String.toList_append, Char.toString, String.toList_singleton,
      List.nil_append, List.append_nil]
  · rw [List.nil_append, List.append_nil]
    exact List.forall_mem_singleton.2 (by rcases condition.relation <;> decide)
  · exact Numeral.denotes_text (by omega) (by omega)
  · exact Numeral.denotes_text hvalue.1 hvalue.2

end Condition

/-! ### Lines -/

/-- A stage that writes a selection: an `s`, and a text that writes the condition. -/
def WritesStage (stage : List Char) (condition : Condition) : Prop :=
  ∃ written, stage = 's' :: written ∧ Condition.Writes written condition

/-- A line that writes selections: its stages between pipes write them, one each. -/
def WritesSelections (line : List Char) (conditions : List Condition) : Prop :=
  List.Forall₂ WritesStage (line.splitOn '|') conditions

/-- There is at least one. -/
theorem WritesSelections.ne_nil {line : List Char} {conditions : List Condition}
    (h : WritesSelections line conditions) : conditions ≠ [] := by
  rintro rfl
  exact List.splitOn_ne_nil '|' line (List.forall₂_nil_right_iff.1 h)

/-- The shortest line of selections. -/
def selectionLine (conditions : List Condition) : String :=
  "|".intercalate (conditions.map fun condition ↦ "s" ++ condition.text)

/-- It writes the selections, if there are any and no number in them is too great to be read. -/
theorem writesSelections_selectionLine {conditions : List Condition} (hne : conditions ≠ [])
    (hcells : ∀ condition ∈ conditions,
      (1 ≤ condition.column ∧ condition.column ≤ 0x7FFFFFFFFFFFFFFF) ∧
        1 ≤ condition.value ∧ condition.value ≤ 0x7FFFFFFFFFFFFFFF) :
    WritesSelections (selectionLine conditions).toList conditions := by
  have hwrites : ∀ condition ∈ conditions, Condition.Writes condition.text.toList condition :=
    fun condition hmem ↦ Condition.writes_text (hcells condition hmem).1 (hcells condition hmem).2
  have hline : (selectionLine conditions).toList =
      ['|'].intercalate (conditions.map fun condition ↦ 's' :: condition.text.toList) := by
    rw [selectionLine, String.toList_intercalate, List.map_map]
    exact congrArg _ (List.map_congr_left fun condition _ ↦ String.toList_append)
  have hpipe : ∀ stage ∈ conditions.map fun condition ↦ 's' :: condition.text.toList,
      '|' ∉ stage := by
    intro stage hstage
    obtain ⟨condition, hmem, rfl⟩ := List.mem_map.1 hstage
    exact List.not_mem_cons_of_ne_of_not_mem (by decide) (hwrites condition hmem).pipe_not_mem
  rw [WritesSelections, hline, List.splitOn_intercalate '|' hpipe (mt List.map_eq_nil_iff.1 hne),
    List.forall₂_map_left_iff]
  exact List.forall₂_same.2 fun condition hmem ↦ ⟨_, rfl, hwrites condition hmem⟩

namespace Command

variable {caps : Caps} {line : List Char} {conditions : List Condition}

/-- A stage that writes a selection is read as it, alone or among others. -/
theorem readStage_of_writesStage {stage : List Char} {condition : Condition}
    (h : WritesStage stage condition) (piped : Bool) :
    readStage caps piped stage = .ok (.query (.select condition)) := by
  obtain ⟨written, rfl, hwrites⟩ := h
  exact readStage_eq_ok_iff.2 ⟨.select, written, rfl, fun _ ↦ rfl,
    readArgument_select_eq_ok_iff.2 ⟨condition, hwrites.read_eq, rfl⟩⟩

/-- Stages that write selections are read as them, one by one. -/
theorem map_readStage_of_writesStage {stages : List (List Char)}
    (h : List.Forall₂ WritesStage stages conditions) (piped : Bool) :
    stages.map (readStage caps piped) =
      conditions.map fun condition ↦ .ok (.query (.select condition)) := by
  induction h with
  | nil => rfl
  | cons hstage _ ih => rw [List.map_cons, List.map_cons, readStage_of_writesStage hstage, ih]

/-- A line that writes selections is read as them. -/
theorem readLine_of_writesSelections (h : WritesSelections line conditions) :
    readLine caps line = .ok ((conditions.map Query.select).map .query) := by
  have hline : line ≠ [] := by
    rintro rfl
    rcases h with - | ⟨⟨written, hstage, -⟩, -⟩
    cases hstage
  rw [readLine_eq_ok_iff hline, List.map_map, List.map_map]
  exact map_readStage_of_writesStage h _

end Command

/-! ### What is shown -/

namespace Query

/-- Selections one after the other are applied as the table is selected from. -/
theorem applyAll_selections (conditions : List Condition) (table : Table) :
    applyAll (conditions.map .select) table = conditions.foldlM Table.select table :=
  List.foldlM_map

/-- Selections are not remarked about. -/
theorem allNotices_selections (conditions : List Condition) :
    allNotices (conditions.map .select) = [] := by
  rw [allNotices, List.flatMap_map]
  exact List.flatMap_eq_nil_iff.2 fun _ _ ↦ rfl

end Query

namespace Shell

variable {limits : Limits} {shell : Shell} {line : String} {conditions : List Condition}

/-- A line of selections, all by columns that exist, is answered with the rows of the main table
that meet each of the conditions. -/
theorem attempt_of_writesSelections (hsound : Sound limits shell)
    (hcolumns : ∀ condition ∈ conditions, shell.table.HasColumn condition.column)
    (h : WritesSelections line.toList conditions) :
    shell.attempt line =
      ⟨shell, Query.present (shell.table.rows.toList.filter (Table.meetsAll conditions))
        shell.columns, none⟩ := by
  have hne : conditions.map Query.select ≠ [] := mt List.map_eq_nil_iff.1 h.ne_nil
  have hresult : Query.applyAll (conditions.map .select) shell.table =
      .ok { shell.table with rows := shell.table.rows.filter (Table.meetsAll conditions) } := by
    rw [Query.applyAll_selections]
    exact Table.foldlM_select hsound.wellFormed hcolumns
  have hproper := Query.applyAll_induction Table.Proper (fun _ _ _ h ↦ h.of_query) hsound.proper
    hresult
  rw [attempt_of_queries hsound hne (Command.readLine_of_writesSelections h), Query.evaluateLine]
  by_cases hrows : shell.table.rows.toList = []
  · rw [if_pos hrows, hrows]
    rfl
  · have hevaluated := Query.evaluate_of_applyAll hsound.proper hresult
    rw [Query.allNotices_selections, hproper.lines_eq, Array.toList_filter] at hevaluated
    rw [if_neg hrows, columns, hevaluated]
    rfl

namespace Reachable

/-- Lists of the same conditions, in whatever order and however often each is in them, select the
same. Lines that write them are answered in the same way on every display, with the rows of the main
table that meet each of the conditions, and change nothing. Each list has such a line. From every
table, the selections one after the other make the same table, too. -/
theorem selections_order_free (h : Reachable limits shell) :
    (∀ {first second : List Condition} {line other : String},
      (∀ condition, condition ∈ first ↔ condition ∈ second) →
      (∀ condition ∈ first, 1 ≤ condition.column ∧ condition.column ≤ shell.columns) →
      WritesSelections line.toList first → WritesSelections other.toList second →
        shell.attempt line =
          ⟨shell, Query.present (shell.table.rows.toList.filter (Table.meetsAll first))
            shell.columns, none⟩ ∧
        shell.attempt other = shell.attempt line ∧
        ∀ {σ : Type} [PlainDisplay σ] (display : σ),
          shell.attemptOn display other = shell.attemptOn display line ∧
            shell.answerOn display other = shell.answerOn display line) ∧
    (∀ {conditions : List Condition}, conditions ≠ [] →
      (∀ condition ∈ conditions,
        (1 ≤ condition.column ∧ condition.column ≤ 0x7FFFFFFFFFFFFFFF) ∧
          1 ≤ condition.value ∧ condition.value ≤ 0x7FFFFFFFFFFFFFFF) →
        WritesSelections (selectionLine conditions).toList conditions) ∧
    ∀ {table : Table} {first second : List Condition}, table.Obtainable →
      (∀ condition, condition ∈ first ↔ condition ∈ second) →
      (∀ condition ∈ first, 1 ≤ condition.column ∧ condition.column ≤ table.columns) →
        ∃ result, first.foldlM Table.select table = .ok result ∧
          second.foldlM Table.select table = .ok result := by
  refine ⟨fun {first second line other} hsame hcolumns hline hother ↦ ?_,
    writesSelections_selectionLine, fun {table first second} hobtainable hsame hcolumns ↦ ?_⟩
  · have hcolumns' : ∀ condition ∈ second, shell.table.HasColumn condition.column :=
      fun condition hmem ↦ hcolumns condition ((hsame condition).2 hmem)
    have hattempt := attempt_of_writesSelections h.sound hcolumns hline
    have hattempt' : shell.attempt other = shell.attempt line := by
      rw [attempt_of_writesSelections h.sound hcolumns' hother, hattempt,
        Table.meetsAll_congr hsame]
    refine ⟨hattempt, hattempt', fun display ↦ ?_⟩
    rw [attemptOn_eq_deliver, attemptOn_eq_deliver, answerOn_eq_deliver, answerOn_eq_deliver,
      answer, answer, hattempt']
    exact ⟨rfl, rfl⟩
  · have hcolumns' : ∀ condition ∈ second, table.HasColumn condition.column :=
      fun condition hmem ↦ hcolumns condition ((hsame condition).2 hmem)
    refine ⟨_, Table.foldlM_select hobtainable.wellFormed hcolumns, ?_⟩
    rw [Table.foldlM_select hobtainable.wellFormed hcolumns', Table.meetsAll_congr hsame]

/-- One stage on its own, and the same one twice; and two conditions, one of which leaves no
row, in either order. -/
theorem selections_order_free_repeated_stage :
    let limits : Limits := ⟨2, 2, 3, 10⟩
    let shell := ((start limits).answerOn LineLog.empty "a1,2").shell
    let low : Condition := ⟨2, .less, 5⟩
    let high : Condition := ⟨1, .greater, 1⟩
    Reachable limits shell ∧
      (selectionLine [low] = "s2<5" ∧ selectionLine [low, low] = "s2<5|s2<5") ∧
      (shell.attempt "s2<5").lines = ["1, 2"] ∧ shell.attempt "s2<5|s2<5" = shell.attempt "s2<5" ∧
      shell.answerOn LineLog.empty "s2<5|s1>1|s2<5" = shell.answerOn LineLog.empty "s1>1|s2<5" ∧
      ∃ result, [high, low].foldlM Table.select shell.table = .ok result ∧
        [low, high, low].foldlM Table.select shell.table = .ok result := by
  intro limits shell low high
  have h : Reachable limits shell := .single (.answer LineLog.empty "a1,2")
  obtain ⟨hlines, hwrites, htables⟩ := selections_order_free h
  have hcells : ∀ condition ∈ [low, high, low],
      (1 ≤ condition.column ∧ condition.column ≤ 0x7FFFFFFFFFFFFFFF) ∧
        1 ≤ condition.value ∧ condition.value ≤ 0x7FFFFFFFFFFFFFFF := by
    decide
  have hcolumns : ∀ condition ∈ [high, low],
      1 ≤ condition.column ∧ condition.column ≤ shell.columns := by
    decide +kernel
  -- a condition that is in the list already makes no difference in front of it
  have hrepeat : ∀ {conditions : List Condition}, low ∈ conditions → ∀ condition,
      condition ∈ conditions ↔ condition ∈ low :: conditions :=
    fun hmem _ ↦ (List.mem_cons.trans (or_iff_right_of_imp fun heq ↦ heq ▸ hmem)).symm
  have hwritten : ∀ conditions : List Condition, conditions ≠ [] →
      (∀ condition ∈ conditions, condition ∈ [low, high, low]) →
        WritesSelections (selectionLine conditions).toList conditions :=
    fun conditions hne hsub ↦ hwrites hne fun condition hmem ↦ hcells _ (hsub condition hmem)
  have hone : selectionLine [low] = "s2<5" := by decide +kernel
  have htwo : selectionLine [low, low] = "s2<5|s2<5" := by decide +kernel
  have hthree : selectionLine [high, low] = "s1>1|s2<5" := by decide +kernel
  have hfour : selectionLine [low, high, low] = "s2<5|s1>1|s2<5" := by decide +kernel
  have hlow := hone ▸ hwritten [low] (by decide) (by decide)
  have hlowLow := htwo ▸ hwritten [low, low] (by decide) (by decide)
  have hhighLow := hthree ▸ hwritten [high, low] (by decide) (by decide)
  have hlowHighLow := hfour ▸ hwritten [low, high, low] (by decide) (by decide)
  obtain ⟨hshown, hrepeated, -⟩ := hlines (hrepeat (by decide)) (by decide +kernel) hlow hlowLow
  obtain ⟨-, -, hdisplays⟩ := hlines (hrepeat (by decide)) hcolumns hhighLow hlowHighLow
  have htable : shell.table = (Table.empty 2).perform (.push [1, 2]) := by decide +kernel
  have hobtainable : shell.table.Obtainable := htable ▸ (Table.Obtainable.empty 2).perform _
  refine ⟨h, ⟨hone, htwo⟩, ?_, hrepeated, (hdisplays LineLog.empty).2,
    htables hobtainable (hrepeat (by decide)) hcolumns⟩
  rw [hshown]
  decide +kernel

end Reachable

end Shell

end TableShell
