import Mathlib.Data.List.Basic
import Mathlib.Logic.Relation
import TableShell.Proofs.Misreading
import TableShell.Proofs.Performance
import TableShell.Proofs.Pipeline

/-!
# The stages of a line while it is carried out

How many stages a line has is found out three times: by reading it, by counting its pipes, and by
handing out positions one by one. All three agree (`Command.length_of_readLine`,
`Progress.advance?_eq`), and so a line never runs out of positions before it runs out of commands.

Between two commands a line stands at a `Point`, and `Point.Next` leads to the next one by carrying
out one command, on a display that may do with the lines whatever it likes. What all points of a
line have in common is `Point.Regular`: the stages handed out and the commands left make up the
stages of the line, and a table is carried over exactly if some of them have been handed out and
some are left. From a regular point a line ends, fails for another reason than a missing input, or
comes to a regular point that is nearer to the end (`Point.Regular.cases`).
-/

namespace TableShell

/-! ### Positions one by one -/

namespace Progress

variable {pipes done : Nat}

/-- The progress after a number of further stages have been handed out, if there are so many. -/
def advance? (progress : Progress) : Nat → Option Progress
  | 0 => some progress
  | n + 1 =>
    match progress.next? with
    | some (_, progress) => progress.advance? n
    | none => none

theorem advance?_eq {n : Nat} (h : done + n ≤ pipes + 1) :
    (⟨pipes, done⟩ : Progress).advance? n = some ⟨pipes, done + n⟩ := by
  induction n generalizing done with
  | zero => rfl
  | succ n ih =>
    rw [advance?, next?_of_done_le (by omega)]
    dsimp only
    rw [ih (by omega), Nat.add_right_comm]
    rfl

end Progress

/-! ### Where an input is not found missing -/

namespace Table

theorem push_ne_missingInput (table : Table) (row : Row) :
    table.push row ≠ .error .missingInput := by
  unfold push
  split
  · exact nofun
  · split
    · exact nofun
    · split <;> exact nofun

theorem requireColumn_ne_missingInput (table : Table) (column : Nat) :
    table.requireColumn column ≠ .error .missingInput := by
  unfold requireColumn
  split <;> exact nofun

theorem cell_ne_missingInput (row : Row) (column : Nat) : cell row column ≠ .error .missingInput := by
  unfold cell
  split <;> exact nofun

theorem add_ne_missingInput (table : Table) (fields : IntegerList) (limit : Nat) :
    table.add fields limit ≠ .error .missingInput := by
  have hfit : table.fit fields limit ≠ .error .missingInput := by
    unfold fit
    split
    · split <;> exact nofun
    · split
      · exact nofun
      · split <;> exact nofun
  refine Sequence.bind_ne_error hfit fun fitted ↦ ?_
  exact Sequence.bind_ne_error (push_ne_missingInput table _) fun _ ↦ Sequence.pure_ne_error _

end Table

/-- A query does not miss an input, for it is given one. -/
theorem Query.apply_ne_missingInput (query : Query) (table : Table) :
    query.apply table ≠ .error .missingInput := by
  cases query with
  | project columns requested =>
    refine Sequence.bind_ne_error
      (Sequence.forM_ne_error table.requireColumn_ne_missingInput columns) fun _ ↦ ?_
    rw [← Array.foldlM_toList]
    refine Sequence.foldlM_ne_error (fun result row ↦ ?_) _ _
    exact Sequence.bind_ne_error
      (Sequence.mapM_ne_error (Table.cell_ne_missingInput row) columns) result.push_ne_missingInput
  | select condition =>
    refine Sequence.bind_ne_error (table.requireColumn_ne_missingInput _) fun _ ↦ ?_
    rw [← Array.foldlM_toList]
    exact Sequence.foldlM_ne_error Table.push_ne_missingInput _ _

/-- A line that is read does not miss an input, since nothing is carried out yet. -/
theorem Command.readLine_ne_missingInput (caps : Caps) (line : List Char) :
    readLine caps line ≠ .error .missingInput := by
  intro h
  cases ofText_of_readLine h

namespace Performance

variable {σ α : Type}

/-! ### Points of a line -/

/-- Where a line stands between two of its commands. -/
structure Point (σ : Type) where
  shell : Shell
  display : σ
  progress : Progress
  /-- The result of the stage before, if it was carried over. -/
  carried : Option Table
  /-- The commands that have not been carried out. -/
  left : List Command

namespace Point

variable {point : Point σ}

/-- What the points of a line have in common. -/
structure Regular (point : Point σ) : Prop where
  /-- The stages handed out and the commands left make up the stages of the line. -/
  count : point.left ≠ [] →
    point.progress.done + point.left.length = point.progress.pipes + 1
  /-- A table is carried over after the first stage and until the last. -/
  isSome_carried_iff : point.carried.isSome ↔ 0 < point.progress.done ∧ point.left ≠ []
  /-- All commands of a line with pipes are queries. -/
  queries : 0 < point.progress.pipes → ∀ c ∈ point.left, ∃ q, c = .query q

namespace Regular

/-- A line that is read starts at a regular point. -/
theorem start {shell : Shell} {line : List Char} {stages : List Command}
    (hread : Command.readLine shell.caps line = .ok stages) (display : σ) :
    (⟨shell, display, Progress.start (Command.pipesIn line), none, stages⟩ : Point σ).Regular where
  count hne := (Nat.zero_add _).trans (Command.length_of_readLine hread hne)
  isSome_carried_iff := iff_of_false nofun fun h ↦ absurd h.1 (Nat.lt_irrefl 0)
  queries hpipes _ hmem := Command.exists_query_of_readLine hpipes hread hmem

/-- With a command left there is a position for it. -/
theorem done_le (h : point.Regular) (hleft : point.left ≠ []) :
    point.progress.done ≤ point.progress.pipes := by
  have hcount := h.count hleft
  have hpos : 0 < point.left.length := List.length_pos_iff.2 hleft
  omega

theorem next?_eq (h : point.Regular) (hleft : point.left ≠ []) :
    point.progress.next? = some (point.progress.position,
      ⟨point.progress.pipes, point.progress.done + 1⟩) :=
  Progress.next?_of_done_le (h.done_le hleft)

/-- A command that is no query is the only one of its line. -/
theorem pipes_eq_zero (h : point.Regular) {c : Command} (hc : ∀ q, c ≠ .query q)
    (hmem : c ∈ point.left) : point.progress.pipes = 0 := by
  refine Nat.eq_zero_of_not_pos fun hpos ↦ ?_
  obtain ⟨q, hq⟩ := h.queries hpos c hmem
  exact hc q hq

/-- A table is carried over exactly if the next stage reads it. -/
theorem isSome_carried_iff_input (h : point.Regular) (hleft : point.left ≠ []) :
    point.carried.isSome ↔ point.progress.position.input = .carried := by
  have hinput : point.progress.position.input =
      if point.progress.done = 0 then .mainTable else .carried :=
    Progress.input_position (h.done_le hleft)
  rw [h.isSome_carried_iff, hinput]
  by_cases hdone : point.progress.done = 0
  · simp [hdone]
  · simp [hdone, hleft, Nat.pos_of_ne_zero hdone]

/-- The next stage finds a table to read. -/
theorem exists_source (h : point.Regular) (hleft : point.left ≠ []) :
    ∃ source, point.shell.source? point.progress.position point.carried = some source := by
  rw [Shell.source?]
  cases hinput : point.progress.position.input with
  | mainTable => exact ⟨_, rfl⟩
  | carried =>
    exact Option.isSome_iff_exists.1 ((h.isSome_carried_iff_input hleft).2 hinput)

end Regular

end Point

/-! ### What misses no input -/

/-- A value of some kind, or a fault other than a missing input. -/
def Fares (good : α → Prop) (result : Except Fault α) : Prop :=
  (∃ a, result = .ok a ∧ good a) ∨ ∃ fault, result = .error fault ∧ fault ≠ .missingInput

/-- A refusal is no missing input. -/
theorem Fares.told [Display σ] {good : α → Prop} {ending : Except Fault α} (h : Fares good ending)
    (shell : Shell) (remarks : List Remark) (display : σ) :
    Fares good (Performance.told shell remarks ending display).1 := by
  rw [Performance.told]
  rcases Display.takeAll display remarks with ⟨display, _ | reason⟩
  · exact h
  · exact .inr ⟨.io reason, rfl, fun hmissing ↦ by cases hmissing⟩

/-! ### One command -/

variable [Display σ]

/-- What a command that is no query hands on is what it was handed. -/
theorem fares_command_of_not_query {c : Command} (hc : ∀ q, c ≠ .query q) (position : Position)
    (carried : Option Table) (shell : Shell) (display : σ) :
    Fares (· = .proceed carried) ((command position carried c).run.run (shell, display)).1 := by
  cases c with
  | add fields =>
    cases hadd : shell.table.add fields shell.limits.columns with
    | error fault =>
      have hne : fault ≠ .missingInput := by
        rintro rfl
        exact shell.table.add_ne_missingInput fields _ hadd
      rw [tells_add_of_error hadd]
      exact Fares.told (.inr ⟨fault, rfl, hne⟩) shell [] display
    | ok addition =>
      rw [tells_add_of_ok hadd]
      refine Fares.told ?_ _ _ display
      exact .inl ⟨_, rfl, rfl⟩
  | print =>
    rw [tells_print]
    refine Fares.told ?_ _ _ display
    exact .inl ⟨_, rfl, rfl⟩
  | query q => exact absurd rfl (hc q)

/-- A query that has data to read hands on a table exactly if its result is to be carried over. -/
theorem fares_query_of_source {position : Position} {carried : Option Table} {source : Table}
    {shell : Shell} (hsource : shell.source? position carried = some source)
    (hdata : position.input = .mainTable → source.hasData) (q : Query) (display : σ) :
    Fares (fun c ↦ ∃ next, c = .proceed next ∧ (next.isSome ↔ position.output = .carried))
      ((query position carried q).run.run (shell, display)).1 := by
  have hshown : ¬ (position.input = .mainTable ∧ (!source.hasData) = true) := by
    rintro ⟨hinput, hempty⟩
    rw [hdata hinput] at hempty
    cases hempty
  cases hresult : q.apply source with
  | error fault =>
    have hne : fault ≠ .missingInput := by
      rintro rfl
      exact q.apply_ne_missingInput source hresult
    rw [tells_query_of_error hsource hshown hresult]
    exact Fares.told (.inr ⟨fault, rfl, hne⟩) shell [] display
  | ok result =>
    have hhanded : (position.handedOn result).isSome ↔ position.output = .carried := by
      rw [Position.handedOn]
      cases position.output <;> simp
    rw [tells_query_of_ok hsource hshown hresult]
    exact Fares.told (.inl ⟨_, rfl, _, rfl, hhanded⟩) shell _ display

/-- A query that reads a main table without data shows that table, and is the end of the line. -/
theorem run_query_of_no_data {position : Position} {shell : Shell}
    (hinput : position.input = .mainTable) (hdata : ¬ shell.table.hasData)
    (carried : Option Table) (q : Query) (display : σ) :
    (query position carried q).run.run (shell, display) =
      match (render shell.table).run.run (shell, display) with
      | (.ok (), s) => (.ok (.stop none), s)
      | (.error fault, s) => (.error fault, s) := by
  have hshown : position.input = .mainTable ∧ (!shell.table.hasData) = true :=
    ⟨hinput, by simpa using hdata⟩
  rw [query, run_shell_bind, Shell.source?, hinput]
  dsimp only
  rw [hinput] at hshown
  rw [if_pos hshown, Sequence.run_bind]
  rcases (render shell.table).run.run (shell, display) with ⟨_ | _, s⟩ <;> rfl

/-! ### From point to point -/

namespace Point

variable {point later : Point σ}

/-- What the commands that are left come to. -/
def run (point : Point σ) : Except Fault Unit × Shell × σ :=
  (commands point.progress point.carried point.left).run.run (point.shell, point.display)

/-- The next command is handed a position and carried out, and the line goes on. -/
inductive Next : Point σ → Point σ → Prop
  | proceed {shell shell' : Shell} {display display' : σ} {progress progress' : Progress}
      {carried carried' : Option Table} {c : Command} {rest : List Command} {position : Position}
      (hposition : progress.next? = some (position, progress'))
      (hcommand : (command position carried c).run.run (shell, display) =
        (.ok (.proceed carried'), shell', display')) :
      Next ⟨shell, display, progress, carried, c :: rest⟩
        ⟨shell', display', progress', carried', rest⟩

/-- With no command left there is nothing to do. -/
theorem run_of_left_eq_nil (h : point.left = []) :
    point.run = (.ok (), point.shell, point.display) := by
  rw [run, h]
  rfl

/-- To go on to the next point is to carry out what is left. -/
theorem Next.run_eq (h : Next point later) : point.run = later.run := by
  cases h with
  | proceed hposition hcommand =>
    rw [run, commands, hposition]
    dsimp only
    rw [Sequence.run_bind, hcommand]
    rfl

/-- A table without data, shown in place of the result of the query that was to read it. -/
def ShowsNoData (point : Point σ) : Prop :=
  (∃ q rest, point.left = .query q :: rest) ∧ point.progress.position.input = .mainTable ∧
    ¬ point.shell.table.hasData ∧
    point.run = (render point.shell.table).run.run (point.shell, point.display)

namespace Regular

/-- The next command hands on a table exactly if it is not the last one, unless it fails or the main
table that it reads has no data. -/
theorem command_cases (h : point.Regular) {c : Command} {rest : List Command}
    (hleft : point.left = c :: rest) :
    let result := ((command point.progress.position point.carried c).run.run
      (point.shell, point.display)).1
    (∃ next, result = .ok (.proceed next) ∧ (next.isSome ↔ rest ≠ [])) ∨
    (∃ fault, result = .error fault ∧ fault ≠ .missingInput) ∨
    ((∃ q, c = .query q) ∧ point.progress.position.input = .mainTable ∧
      ¬ point.shell.table.hasData) := by
  have hne : point.left ≠ [] := hleft ▸ List.cons_ne_nil c rest
  have hdone : point.progress.done ≤ point.progress.pipes := h.done_le hne
  have hcount : point.progress.done + (rest.length + 1) = point.progress.pipes + 1 := by
    rw [← h.count hne, hleft, List.length_cons]
  by_cases hquery : ∃ q, c = .query q
  · obtain ⟨q, rfl⟩ := hquery
    by_cases hempty : point.progress.position.input = .mainTable ∧ ¬ point.shell.table.hasData
    · exact .inr (.inr ⟨⟨q, rfl⟩, hempty⟩)
    · obtain ⟨source, hsource⟩ := h.exists_source hne
      have hdata : point.progress.position.input = .mainTable → source.hasData := by
        intro hinput
        rw [Shell.source?, hinput] at hsource
        obtain rfl := Option.some.inj hsource
        exact Classical.not_not.1 fun hnone ↦ hempty ⟨hinput, hnone⟩
      have houtput : point.progress.position.output = .carried ↔ rest ≠ [] := by
        have hposition : point.progress.position.output =
            if point.progress.done < point.progress.pipes then .carried else .shown :=
          Progress.output_position hdone
        rw [hposition, ← List.length_pos_iff]
        split
        · exact iff_of_true rfl (by omega)
        · exact iff_of_false nofun (by omega)
      rcases fares_query_of_source hsource hdata q point.display with
        ⟨_, hnext, next, rfl, hsome⟩ | hfault
      · exact .inl ⟨next, hnext, hsome.trans houtput⟩
      · exact .inr (.inl hfault)
  · -- the command is alone on its line, and nothing was carried over to it
    have hc : ∀ q, c ≠ .query q := fun q hq ↦ hquery ⟨q, hq⟩
    have hpipes : point.progress.pipes = 0 := h.pipes_eq_zero hc (hleft ▸ List.mem_cons_self)
    have hnone : ¬ point.carried.isSome := by
      rw [h.isSome_carried_iff]
      omega
    have hrest : ¬ rest ≠ [] := by
      rw [← List.length_pos_iff]
      omega
    rcases fares_command_of_not_query hc point.progress.position point.carried point.shell
      point.display with ⟨_, hvalue, rfl⟩ | hfault
    · exact .inl ⟨point.carried, hvalue, iff_of_false hnone hrest⟩
    · exact .inr (.inl hfault)

/-- What is left if the next query reads a main table without data is to show that table. -/
theorem showsNoData (h : point.Regular) {q : Query} {rest : List Command}
    (hleft : point.left = .query q :: rest)
    (hinput : point.progress.position.input = .mainTable)
    (hdata : ¬ point.shell.table.hasData) : point.ShowsNoData := by
  refine ⟨⟨q, rest, hleft⟩, hinput, hdata, ?_⟩
  rw [run, hleft, commands, h.next?_eq (hleft ▸ List.cons_ne_nil _ _)]
  dsimp only [command]
  rw [Sequence.run_bind, run_query_of_no_data hinput hdata]
  rcases (render point.shell.table).run.run (point.shell, point.display) with ⟨_ | _, s⟩ <;> rfl

/-- Carrying out a command keeps a point regular. -/
theorem next (h : point.Regular) (hnext : Next point later) : later.Regular := by
  cases hnext with
  | @proceed shell shell' display display' progress progress' carried carried' c rest position
      hposition hcommand =>
    have hleft : c :: rest ≠ [] := List.cons_ne_nil c rest
    have hcount : progress.done + (rest.length + 1) = progress.pipes + 1 := h.count hleft
    rw [h.next?_eq hleft] at hposition
    obtain ⟨rfl, rfl⟩ := Prod.mk.inj (Option.some.inj hposition)
    have hcarried : carried'.isSome ↔ rest ≠ [] := by
      rcases h.command_cases rfl with ⟨next, hresult, hsome⟩ | ⟨fault, hresult, -⟩ |
        ⟨⟨q, rfl⟩, hinput, hdata⟩
      · rw [hcommand] at hresult
        obtain rfl := Continuation.proceed.inj (Except.ok.inj hresult)
        exact hsome
      · rw [hcommand] at hresult
        cases hresult
      · -- the line would end here
        rw [command, run_query_of_no_data hinput hdata] at hcommand
        rcases hrender : (render shell.table).run.run (shell, display) with ⟨_ | _, s⟩ <;>
          rw [hrender] at hcommand <;> cases hcommand
    refine ⟨fun hrest ↦ ?_, ?_, fun hpipes d hd ↦ ?_⟩
    · show progress.done + 1 + rest.length = progress.pipes + 1
      omega
    · show carried'.isSome ↔ 0 < progress.done + 1 ∧ rest ≠ []
      rw [hcarried, and_iff_right (Nat.succ_pos _)]
    · exact h.queries hpipes d (List.mem_cons_of_mem c hd)

/-- From a regular point the line has come to its end, fails, shows a main table without data, or
goes on to the next point. -/
theorem cases (h : point.Regular) :
    point.left = [] ∨ (∃ fault, point.run.1 = .error fault ∧ fault ≠ .missingInput) ∨
      point.ShowsNoData ∨ ∃ later, Next point later := by
  rcases hleft : point.left with _ | ⟨c, rest⟩
  · exact .inl rfl
  · have hnext? := h.next?_eq (hleft ▸ List.cons_ne_nil c rest)
    rcases hrun : (command point.progress.position point.carried c).run.run
      (point.shell, point.display) with ⟨result, shell', display'⟩
    rcases h.command_cases hleft with ⟨next, hresult, -⟩ | ⟨fault, hresult, hne⟩ |
      ⟨⟨q, rfl⟩, hinput, hdata⟩
    · rw [hrun] at hresult
      obtain rfl : result = .ok (.proceed next) := hresult
      obtain ⟨shell, display, progress, carried, left⟩ := point
      obtain rfl : left = c :: rest := hleft
      exact .inr (.inr (.inr ⟨_, .proceed hnext? hrun⟩))
    · rw [hrun] at hresult
      obtain rfl : result = .error fault := hresult
      refine .inr (.inl ⟨fault, ?_, hne⟩)
      rw [run, hleft, commands, hnext?]
      dsimp only
      rw [Sequence.run_bind, hrun]
    · exact .inr (.inr (.inl (h.showsNoData hleft hinput hdata)))

/-- A line that stands at a regular point passes on to one where it ends in one way or another. -/
theorem exists_last (h : point.Regular) :
    ∃ last, Relation.ReflTransGen Next point last ∧ last.Regular ∧
      (last.left = [] ∨ (∃ fault, last.run.1 = .error fault ∧ fault ≠ .missingInput) ∨
        last.ShowsNoData) := by
  obtain ⟨n, hn⟩ : ∃ n, point.left.length = n := ⟨_, rfl⟩
  induction n generalizing point with
  | zero => exact ⟨point, .refl, h, .inl (List.length_eq_zero_iff.1 hn)⟩
  | succ n ih =>
    rcases h.cases with hend | hfails | hshows | ⟨later, hnext⟩
    · exact ⟨point, .refl, h, .inl hend⟩
    · exact ⟨point, .refl, h, .inr (.inl hfails)⟩
    · exact ⟨point, .refl, h, .inr (.inr hshows)⟩
    · have hlength : later.left.length = n := by
        cases hnext with
        | proceed => exact Nat.succ.inj hn
      obtain ⟨last, hpath, hlast⟩ := ih (h.next hnext) hlength
      exact ⟨last, hpath.head hnext, hlast⟩

end Regular

end Point

/-! ### Lines -/

/-- The points that a line passes in a shell and on a display, from its first command on. -/
def Passes (shell : Shell) (display : σ) (line : String) (point : Point σ) : Prop :=
  ∃ stages, Command.readLine shell.caps line.toList = .ok stages ∧
    Relation.ReflTransGen Point.Next
      ⟨shell, display, Progress.start (Command.pipesIn line.toList), none, stages⟩ point

variable {shell : Shell} {display : σ} {line : String} {point : Point σ}

/-- All points of a line are regular. -/
theorem Passes.regular (h : Passes shell display line point) : point.Regular := by
  obtain ⟨stages, hread, hpath⟩ := h
  induction hpath with
  | refl => exact .start hread display
  | tail _ hnext ih => exact ih.next hnext

/-- What a line comes to is, at each of its points, what the commands that are left come to. -/
theorem Passes.run_eq (h : Passes shell display line point) :
    (attempt line).run.run (shell, display) = point.run := by
  obtain ⟨stages, hread, hpath⟩ := h
  induction hpath with
  | refl =>
    rw [attempt, run_shell_bind, hread]
    rfl
  | tail _ hnext ih => exact ih.trans hnext.run_eq

/-- A line fails for another reason than a missing input, or else passes a point where no command is
left or where a main table without data is shown. -/
theorem attempt_cases (shell : Shell) (display : σ) (line : String) :
    (∃ fault, ((attempt line).run.run (shell, display)).1 = .error fault ∧
      fault ≠ .missingInput) ∨
    ∃ last, Passes shell display line last ∧ (last.left = [] ∨ last.ShowsNoData) := by
  cases hread : Command.readLine shell.caps line.toList with
  | error fault =>
    refine .inl ⟨fault, ?_, ?_⟩
    · rw [attempt, run_shell_bind, hread]
      rfl
    · rintro rfl
      exact Command.readLine_ne_missingInput _ _ hread
  | ok stages =>
    obtain ⟨last, hpath, -, hlast⟩ := (Point.Regular.start hread display).exists_last
    have hpasses : Passes shell display line last := ⟨stages, hread, hpath⟩
    rcases hlast with hend | ⟨fault, hfault, hne⟩ | hshows
    · exact .inr ⟨last, hpasses, .inl hend⟩
    · exact .inl ⟨fault, hpasses.run_eq ▸ hfault, hne⟩
    · exact .inr ⟨last, hpasses, .inr hshows⟩

/-- A line misses no input. -/
theorem fares_attempt (line : String) (shell : Shell) (display : σ) :
    Fares (fun _ ↦ True) ((attempt line).run.run (shell, display)).1 := by
  rcases attempt_cases shell display line with hfails | ⟨last, hpasses, hend | hshows⟩
  · exact .inr hfails
  · rw [hpasses.run_eq, Point.run_of_left_eq_nil hend]
    exact .inl ⟨(), rfl, trivial⟩
  · rw [hpasses.run_eq, hshows.2.2.2, run_render]
    exact Fares.told (.inl ⟨(), rfl, trivial⟩) _ _ _

end Performance

namespace Shell

/-- Reading a line, counting its pipes and handing out its positions come to the same number of
stages. So whatever the shell, the line and the display are: as long as a command is left there is a
position for it; a command that is no query stands alone; a table is carried over exactly if the
next stage is to read it; no input is ever missing; and a line that does not fail ends without a
table carried over, or with the main table shown because it has no data. -/
theorem stages_in_step :
    (∀ (caps : Command.Caps) (line : List Char) (commands : List Command), line ≠ [] →
      Command.readLine caps line = .ok commands →
      commands.length = Command.pipesIn line + 1 ∧
      ∀ n ≤ commands.length, ∃ progress,
        (Progress.start (Command.pipesIn line)).advance? n = some progress ∧
          (progress.isFinished ↔ n = commands.length)) ∧
    ∀ {σ : Type} [Display σ] (shell : Shell) (display : σ) (line : String),
      let outcome := shell.attemptOn display line
      (∀ point : Performance.Point σ, Performance.Passes shell display line point →
        (Performance.attempt line).run.run (shell, display) = point.run ∧
        (∀ c rest, point.left = c :: rest → ∃ position progress,
          point.progress.next? = some (position, progress) ∧
          ((∀ query, c ≠ .query query) → position = .only) ∧
          (point.carried.isSome ↔ position.input = .carried)) ∧
        (point.left = [] → point.carried = none)) ∧
      outcome.fault ≠ some .missingInput ∧
      (outcome.fault = none → ∃ last : Performance.Point σ,
        Performance.Passes shell display line last ∧
          (last.left = [] ∧ outcome = ⟨last.shell, last.display, none⟩ ∨ last.ShowsNoData)) := by
  refine ⟨fun caps line commands hne hread ↦ ?_, fun shell display line ↦ ?_⟩
  · have hcommands : commands ≠ [] := by
      rintro rfl
      have hlength := congrArg List.length ((Command.readLine_eq_ok_iff hne).1 hread)
      rw [List.length_map, Command.length_splitOn_pipe] at hlength
      cases hlength
    have hlength : commands.length = Command.pipesIn line + 1 :=
      Command.length_of_readLine hread hcommands
    refine ⟨hlength, fun n hn ↦ ⟨_, Progress.advance?_eq (by omega), ?_⟩⟩
    rw [Progress.isFinished_iff]
    omega
  · intro outcome
    have hfault : outcome.fault =
        Performance.faultOf ((Performance.attempt line).run.run (shell, display)).1 := rfl
    refine ⟨fun point hpasses ↦ ⟨hpasses.run_eq, fun c rest hleft ↦ ?_, fun hleft ↦ ?_⟩, ?_,
      fun hnone ↦ ?_⟩
    · have hregular := hpasses.regular
      have hne : point.left ≠ [] := hleft ▸ List.cons_ne_nil c rest
      refine ⟨_, _, hregular.next?_eq hne, fun hc ↦ ?_, hregular.isSome_carried_iff_input hne⟩
      have hpipes := hregular.pipes_eq_zero hc (hleft ▸ List.mem_cons_self)
      rw [Progress.position, if_pos hpipes]
    · have hcarried := mt hpasses.regular.isSome_carried_iff.1 fun h ↦ h.2 hleft
      exact Option.not_isSome_iff_eq_none.1 hcarried
    · rw [hfault]
      rcases Performance.fares_attempt line shell display with ⟨_, hrun, -⟩ | ⟨fault, hrun, hne⟩
      · rw [hrun]
        exact (Option.some_ne_none _).symm
      · rw [hrun]
        exact fun h ↦ hne (Option.some.inj h)
    · rcases Performance.attempt_cases shell display line with ⟨fault, hrun, -⟩ |
        ⟨last, hpasses, hend | hshows⟩
      · rw [hfault, hrun] at hnone
        cases hnone
      · have hrun := hpasses.run_eq.trans (Performance.Point.run_of_left_eq_nil hend)
        refine ⟨last, hpasses, .inl ⟨hend, ?_⟩⟩
        show Performance.outcome _ _ _ = _
        rw [Performance.outcome, hrun]
      · exact ⟨last, hpasses, .inr hshows⟩

/-- Three stages on a table with one row. -/
theorem stages_in_step_three_stages :
    let line := "p2,1|s1>3|p1"
    let commands : List Command :=
      [.query (.project [2, 1] 2), .query (.select ⟨1, .greater, 3⟩), .query (.project [1] 1)]
    let shell : Shell := ⟨⟨#[[1, 4]], some 2, 2⟩, ⟨2, 2, 2, 20⟩⟩
    Command.readLine shell.caps line.toList = .ok commands ∧
      commands.length = Command.pipesIn line.toList + 1 ∧
      (shell.attemptOn LineLog.empty line).fault = none ∧
      ∃ last, Performance.Passes shell LineLog.empty line last ∧
        (last.left = [] ∧ shell.attemptOn LineLog.empty line = ⟨last.shell, last.display, none⟩ ∨
          last.ShowsNoData) := by
  intro line commands shell
  have hread : Command.readLine shell.caps line.toList = .ok commands := by decide +kernel
  have hfault : (shell.attemptOn LineLog.empty line).fault = none := by decide +kernel
  refine ⟨hread, (stages_in_step.1 _ _ _ (by decide +kernel) hread).1, hfault, ?_⟩
  exact (stages_in_step.2 shell LineLog.empty line).2.2 hfault

end Shell

end TableShell
