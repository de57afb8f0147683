import TableShell.Proofs.Evaluation
import TableShell.Proofs.Pipeline
import TableShell.Proofs.Reachable

/-!
# Lines of queries

A line of queries is answered with what the queries come to on the rows of the main table as a plain
list (`Query.evaluateLine`). This is `Reachable.query_line_exact`.

The line is run stage by stage, with a table carried over from each stage to the next. The induction
(`run_queries`) is over the stages that are left: their number and the number of those handed out
make up the stages of the line, so that it is the last one that shows its result, and the table that
the next stage reads is well-formed and has positive cells, so that nothing is refused and nothing
left out of what is shown.
-/

namespace TableShell

namespace Shell

variable {limits : Limits} {shell : Shell} {source : Table} {carried : Option Table}

/-! ### Stages as text -/

/-- A stage that is written as a query. A projection is a `p` and tokens between commas, and keeps
the first of its columns, up to the limit. -/
inductive Spells (projection : Nat) : List Char → Query → Prop
  | project {argument : List Char} {targets : List Int} (hne : targets ≠ [])
      (htokens : ((argument.splitOn ',').filter (!·.isEmpty)).map Numeral.positive? =
        targets.map some) :
      Spells projection ('p' :: argument)
        (.project ((targets.take projection).map Int.toNat) targets.length)
  | select {argument : List Char} {condition : Condition}
      (hcondition : Condition.read argument = .ok condition) :
      Spells projection ('s' :: argument) (.select condition)

/-- A stage that is read as a query is written as that query. -/
theorem spells_of_readStage {caps : Command.Caps} {piped : Bool} {stage : List Char} {query : Query}
    (h : Command.readStage caps piped stage = .ok (.query query)) :
    Spells caps.projection stage query := by
  obtain ⟨verb, argument, rfl, -, hread⟩ := Command.readStage_eq_ok_iff.1 h
  have hverb := Command.verb_of_readArgument hread
  cases query with
  | project columns requested =>
    obtain rfl : Verb.project = verb := hverb
    obtain ⟨targets, hne, htokens, hquery⟩ := Command.readArgument_project_eq_ok_iff.1 hread
    obtain ⟨rfl, rfl⟩ := Query.project.inj (Command.query.inj hquery)
    exact .project hne htokens
  | select condition =>
    obtain rfl : Verb.select = verb := hverb
    obtain ⟨_, hcondition, hquery⟩ := Command.readArgument_select_eq_ok_iff.1 hread
    obtain rfl := Query.select.inj (Command.query.inj hquery)
    exact .select hcondition

/-- The stages of a line that is read as queries are written as these queries. -/
theorem spells_of_readLine {caps : Command.Caps} {line : List Char} {queries : List Query}
    (hne : queries ≠ []) (h : Command.readLine caps line = .ok (queries.map .query)) :
    List.Forall₂ (Spells caps.projection) (line.splitOn '|') queries := by
  have hcommands : queries.map Command.query ≠ [] := mt List.map_eq_nil_iff.1 hne
  have hstages := Command.map_readStage_of_readLine h hcommands
  show List.Forall₂ _ (line.splitOn Command.pipe) queries
  generalize line.splitOn Command.pipe = stages at hstages
  clear h hne hcommands
  induction queries generalizing stages with
  | nil =>
    obtain rfl : stages = [] := List.map_eq_nil_iff.1 hstages
    exact .nil
  | cons query rest ih =>
    cases stages with
    | nil => cases hstages
    | cons stage stages =>
      obtain ⟨hstage, hstages⟩ := List.cons.inj hstages
      exact .cons (spells_of_readStage hstage) (ih stages hstages)

/-! ### One stage -/

/-- What a query comes to on the table that it reads, unless that is the main table and has no
data. -/
theorem stepQuery_of_source {position : Position}
    (hsource : shell.source? position carried = some source)
    (hdata : position.input = .mainTable → source.hasData) (query : Query) :
    shell.stepQuery position carried query =
      match query.apply source with
      | .error fault => ⟨shell, [], .stop (some fault)⟩
      | .ok result =>
        match position.output with
        | .carried => ⟨shell, query.notices.map Fault.message, .proceed (some result)⟩
        | .shown => ⟨shell, query.notices.map Fault.message ++ result.lines, .proceed none⟩ := by
  have hshown : ¬ (position.input = .mainTable ∧ (!source.hasData) = true) := by
    rintro ⟨hinput, hempty⟩
    rw [hdata hinput] at hempty
    cases hempty
  rw [stepQuery, hsource]
  refine (if_neg hshown).trans ?_
  cases query.apply source with
  | error fault => rfl
  | ok result => cases position.output <;> rfl

/-- A query that reads the main table is not carried out without data. -/
theorem stepQuery_of_no_data {position : Position} (hinput : position.input = .mainTable)
    (hdata : ¬ shell.table.hasData) (query : Query) :
    shell.stepQuery position carried query = ⟨shell, [Table.emptyNotice], .stop none⟩ := by
  have hshown : position.input = .mainTable ∧ (!shell.table.hasData) = true :=
    ⟨hinput, by simpa using hdata⟩
  rw [stepQuery, source?, hinput]
  dsimp only
  rw [hinput] at hshown
  rw [if_pos hshown, Table.lines, if_neg hdata]

/-- A query reads what was carried over, unless it is the first of its line. -/
theorem source?_of_pos {pipes done : Nat} (hpos : 0 < done) (hdone : done ≤ pipes)
    (table : Table) :
    shell.source? (⟨pipes, done⟩ : Progress).position (some table) = some table := by
  have hinput : (⟨pipes, done⟩ : Progress).position.input = .carried := by
    rw [Progress.input_position hdone, if_neg (by omega)]
  rw [source?, hinput]

/-! ### All stages -/

/-- The main table is well-formed and its cells are positive. -/
theorem Sound.proper (h : Sound limits shell) : shell.table.Proper := by
  refine ⟨h.wellFormed, fun row hrow n hn ↦ ?_⟩
  have hbounds := h.cell_bounds row hrow n hn
  omega

/-- The main table has data exactly if it has rows. -/
theorem Sound.hasData_iff (h : Sound limits shell) :
    shell.table.hasData ↔ shell.table.rows.toList ≠ [] := by
  rw [Table.hasData_iff, not_or]
  refine ⟨And.left, fun hrows ↦ ⟨hrows, ?_⟩⟩
  have hsize : 0 < shell.size := by
    rw [size, Table.size, ← Array.length_toList]
    exact List.length_pos_iff.2 hrows
  have hcolumns : 1 ≤ shell.columns := h.columns_pos (h.isStarted_iff.2 hsize)
  exact Nat.ne_of_gt hcolumns

/-- The stages that are left of a line of queries come to what they come to on plain lists. -/
theorem run_queries {pipes done : Nat} {queries : List Query} (hne : queries ≠ [])
    (hlength : done + queries.length = pipes + 1) (hproper : source.Proper)
    (hsource : shell.source? (⟨pipes, done⟩ : Progress).position carried = some source)
    (hdata : done = 0 → source.hasData) :
    shell.run ⟨pipes, done⟩ carried (queries.map .query) =
      ⟨shell, (Query.evaluate source.rows.toList source.columns queries).1,
        (Query.evaluate source.rows.toList source.columns queries).2⟩ := by
  induction queries generalizing done carried source with
  | nil => exact absurd rfl hne
  | cons query rest ih =>
    have hdone : done ≤ pipes := by
      rw [List.length_cons] at hlength
      omega
    have hmain : (⟨pipes, done⟩ : Progress).position.input = .mainTable → source.hasData := by
      intro hinput
      rw [Progress.input_position hdone] at hinput
      by_cases hzero : done = 0
      · exact hdata hzero
      · rw [if_neg hzero] at hinput
        cases hinput
    -- both sides now depend on how the query comes out, and in the same way
    have hstep := stepQuery_of_source hsource hmain query
    rw [List.map_cons, run, Progress.next?_of_done_le hdone]
    dsimp only [step]
    rw [hstep, hproper.evaluate_cons]
    cases hresult : query.apply source with
    | error fault => rfl
    | ok result =>
      have hproper' : result.Proper := hproper.of_query hresult
      rw [Progress.output_position hdone]
      cases rest with
      | nil =>
        -- the last stage shows its result
        have hlast : ¬ done < pipes := by
          rw [List.length_singleton] at hlength
          omega
        rw [if_neg hlast]
        dsimp only
        rw [hproper'.evaluate_nil]
        show Reply.after _ ⟨shell, [], none⟩ = _
        rw [Reply.after, List.append_nil]
      | cons next more =>
        -- any other one carries it over to the next
        have hleft : done < pipes := by
          rw [List.length_cons, List.length_cons] at hlength
          omega
        have hmore : done + 1 + (next :: more).length = pipes + 1 := by
          rw [List.length_cons] at hlength
          omega
        have hrun := ih (List.cons_ne_nil next more) hmore hproper'
          (source?_of_pos (Nat.succ_pos done) hleft result) (absurd · (Nat.succ_ne_zero done))
        rw [if_pos hleft]
        dsimp only
        rw [hrun]
        rfl

/-- A line of queries is answered with what the queries come to on plain lists. -/
theorem attempt_of_queries (hsound : Sound limits shell) {line : String} {queries : List Query}
    (hne : queries ≠ [])
    (hread : Command.readLine shell.caps line.toList = .ok (queries.map .query)) :
    shell.attempt line =
      ⟨shell, (Query.evaluateLine shell.table.rows.toList shell.columns queries).1,
        (Query.evaluateLine shell.table.rows.toList shell.columns queries).2⟩ := by
  have hcommands : queries.map Command.query ≠ [] := mt List.map_eq_nil_iff.1 hne
  have hlength : 0 + queries.length = Command.pipesIn line.toList + 1 := by
    rw [← Command.length_of_readLine hread hcommands, List.length_map, Nat.zero_add]
  have hinput : (⟨Command.pipesIn line.toList, 0⟩ : Progress).position.input = .mainTable :=
    Progress.input_position (Nat.zero_le _)
  have hsource : shell.source? (⟨Command.pipesIn line.toList, 0⟩ : Progress).position none =
      some shell.table := by
    rw [source?, hinput]
  rw [attempt, hread, Query.evaluateLine]
  dsimp only
  by_cases hrows : shell.table.rows.toList = []
  · have hdata : ¬ shell.table.hasData = true := fun h ↦ hsound.hasData_iff.1 h hrows
    cases queries with
    | nil => exact absurd rfl hne
    | cons query rest =>
      rw [if_pos hrows, List.map_cons, run, Progress.start,
        Progress.next?_of_done_le (Nat.zero_le _)]
      dsimp only [step]
      rw [stepQuery_of_no_data hinput hdata]
      rfl
  · have hdata : shell.table.hasData := hsound.hasData_iff.2 hrows
    rw [if_neg hrows]
    exact run_queries hne hlength hsound.proper hsource fun _ ↦ hdata

namespace Reachable

/-- A line that is read as queries leaves the shell as it is and comes to what the queries come to
on the rows of the main table as a plain list, on every display that takes every line. The queries
are those that its stages are written as. -/
theorem query_line_exact (h : Reachable limits shell) {line : String} {queries : List Query}
    (hne : queries ≠ [])
    (hread : Command.readLine shell.caps line.toList = .ok (queries.map .query)) :
    List.Forall₂ (Spells limits.projection) (line.toList.splitOn '|') queries ∧
    ∀ {σ : Type} [AcceptingDisplay σ] (display : σ),
      let result := Query.evaluateLine shell.table.rows.toList shell.columns queries
      shell.attemptOn display line =
        ⟨shell, result.1.foldl AcceptingDisplay.accept display, result.2⟩ := by
  have hsound := h.sound
  refine ⟨?_, fun display ↦ ?_⟩
  · have hspells := spells_of_readLine hne hread
    have hcaps : shell.caps.projection = limits.projection :=
      congrArg Limits.projection hsound.limits_eq
    rwa [hcaps] at hspells
  · have hattempt := attempt_of_queries hsound hne hread
    intro result
    rw [attemptOn_eq_deliver, hattempt, Reply.deliver_accepting]

/-- A projection that keeps two of three columns, a selection, and a projection again. -/
theorem query_line_exact_three_stages :
    let limits : Limits := ⟨3, 2, 2, 100⟩
    let shell := ((((start limits).answerOn LineLog.empty "a1,2,3").shell).answerOn LineLog.empty
      "a4,5,6").shell
    Reachable limits shell ∧
      shell.attemptOn LineLog.empty "p3,2,1|s1>3|p2" =
        ⟨shell, ⟨#["Projecting onto 2 of 3 cols specified", "5"]⟩, none⟩ := by
  intro limits shell
  have h : Reachable limits shell :=
    (Relation.ReflTransGen.single (.answer LineLog.empty "a1,2,3")).tail
      (.answer LineLog.empty "a4,5,6")
  have hread : Command.readLine shell.caps "p3,2,1|s1>3|p2".toList =
      .ok ([.project [3, 2] 3, .select ⟨1, .greater, 3⟩, .project [2] 1].map .query) := by
    decide +kernel
  have hrows : shell.table.rows.toList = [[1, 2, 3], [4, 5, 6]] := by decide +kernel
  have hcolumns : shell.columns = 3 := by decide +kernel
  have hevaluated : Query.evaluateLine [[1, 2, 3], [4, 5, 6]] 3
      [.project [3, 2] 3, .select ⟨1, .greater, 3⟩, .project [2] 1] =
        (["Projecting onto 2 of 3 cols specified", "5"], none) := by
    decide +kernel
  have hline := (query_line_exact h (by decide) hread).2 LineLog.empty
  dsimp only at hline
  rw [hrows, hcolumns, hevaluated] at hline
  exact ⟨h, hline⟩

end Reachable

end Shell

end TableShell
