import TableShell.Proofs.Session
import TableShell.Proofs.Table.Looser

/-!
# Wider limits

Two new shells are given the same lines, one of them under wider limits. As long as no line of the
other one meets a limit (`Shell.Unhindered`), each line is answered in the same way by both, on
every display, and both tables come to the same rows and the same width
(`wider_limits_change_nothing`).

The two shells do not read the same commands, because what is kept of a list goes by the limits. A
projection that was cut may still be answered without a word of it, if a column that was kept does
not exist, or if there is no data. So the commands are compared as they are carried out. What
carries over from command to command and from line to line is that the tables of the one shell are
looser than those of the other (`Shell.Looser`).
-/

namespace TableShell

open Sequence

/-! ### Faults that are shown -/

/-- Whether a remark is a fault that comes from a limit. -/
def Remark.isLimit : Remark → Bool
  | .line _ => false
  | .fault cause => cause.isLimit

/-- A display that takes everything and keeps the faults. -/
structure FaultLog where
  faults : Array Fault
deriving DecidableEq, Repr, Inhabited

namespace FaultLog

/-- A log without faults. -/
def empty : FaultLog :=
  ⟨#[]⟩

instance : Display FaultLog where
  put log _ := .ok log
  putFault log fault := .ok ⟨log.faults.push fault⟩

/-- Nothing is refused, and no fault is lost. -/
theorem takeAll_eq (log : FaultLog) (remarks : List Remark) :
    (Display.takeAll log remarks).2 = none ∧
      ∀ fault, fault ∈ log.faults ∨ .fault fault ∈ remarks →
        fault ∈ (Display.takeAll log remarks).1.faults := by
  induction remarks generalizing log with
  | nil => exact ⟨rfl, fun fault h ↦ h.resolve_right List.not_mem_nil⟩
  | cons remark rest ih =>
    cases remark with
    | line text =>
      obtain ⟨hnone, hfaults⟩ := ih log
      refine ⟨hnone, fun fault h ↦ hfaults fault (h.imp_right fun hmem ↦ ?_)⟩
      exact (List.mem_cons.1 hmem).resolve_left nofun
    | fault cause =>
      obtain ⟨hnone, hfaults⟩ := ih ⟨log.faults.push cause⟩
      refine ⟨hnone, fun fault h ↦ hfaults fault ?_⟩
      rcases h with hlog | hmem
      · exact .inl (Array.mem_push.2 (.inl hlog))
      · rcases List.mem_cons.1 hmem with heq | hrest
        · obtain rfl := Remark.fault.inj heq
          exact .inl (Array.mem_push.2 (.inr rfl))
        · exact .inr hrest

end FaultLog

/-! ### Performances side by side -/

namespace Performance

variable {α β γ δ : Type} {shell loose : Shell}

/-- Two performances that keep their shells. The first one makes a remark about a limit, or else
both make the same remarks and come to matching endings, whatever the display is. -/
def Agree (r : α → β → Prop) (shell loose : Shell) (x : ∀ {σ : Type} [Display σ], Performance σ α)
    (y : ∀ {σ : Type} [Display σ], Performance σ β) : Prop :=
  ∃ remarks ending, Tells x shell shell remarks ending ∧
    ((∃ remark ∈ remarks, remark.isLimit) ∨
      ∃ ending', Matched r ending ending' ∧ Tells y loose loose remarks ending')

theorem Agree.pure {r : α → β → Prop} {a : α} {b : β} (h : r a b) :
    Agree r shell loose (pure a) (pure b) :=
  ⟨[], .ok a, fun _ ↦ rfl, .inr ⟨.ok b, .ok h, fun _ ↦ rfl⟩⟩

theorem Agree.throw (r : α → β → Prop) (fault : Fault) :
    Agree r shell loose (throw fault) (throw fault) :=
  ⟨[], .error fault, fun _ ↦ rfl, .inr ⟨.error fault, .error fault, fun _ ↦ rfl⟩⟩

/-- Performances agree if their first acts do and what comes after these does. -/
theorem Agree.bind {r : α → β → Prop} {s : γ → δ → Prop}
    {x : ∀ {σ : Type} [Display σ], Performance σ α} {y : ∀ {σ : Type} [Display σ], Performance σ β}
    {f : ∀ {σ : Type} [Display σ], α → Performance σ γ}
    {g : ∀ {σ : Type} [Display σ], β → Performance σ δ} (h : Agree r shell loose x y)
    (htells : ∀ a, ∃ remarks ending, Tells (f a) shell shell remarks ending)
    (hnext : ∀ a b, r a b → Agree s shell loose (f a) (g b)) :
    Agree s shell loose (x >>= f) (y >>= g) := by
  obtain ⟨remarks, ending, hx, hy⟩ := h
  cases ending with
  | error fault =>
    refine ⟨remarks, .error fault, fun display ↦ run_bind_told_error (hx display), hy.imp_right ?_⟩
    rintro ⟨ending', hmatched, hy⟩
    cases hmatched with
    | error => exact ⟨.error fault, .error fault, fun display ↦ run_bind_told_error (hy display)⟩
  | ok a =>
    rcases hy with ⟨remark, hmem, hlimit⟩ | ⟨ending', hmatched, hy⟩
    · obtain ⟨more, ending, hf⟩ := htells a
      exact ⟨remarks ++ more, ending, fun display ↦ run_bind_told (hx display) hf,
        .inl ⟨remark, List.mem_append_left more hmem, hlimit⟩⟩
    · cases hmatched with
      | @ok _ b hab =>
        obtain ⟨more, ending, hf, hg⟩ := hnext a b hab
        refine ⟨remarks ++ more, ending, fun display ↦ run_bind_told (hx display) hf, ?_⟩
        rcases hg with ⟨remark, hmem, hlimit⟩ | ⟨ending', hmatched, hg⟩
        · exact .inl ⟨remark, List.mem_append_right remarks hmem, hlimit⟩
        · exact .inr ⟨ending', hmatched, fun display ↦ run_bind_told (hy display) hg⟩

end Performance

/-! ### Lines of queries -/

/-- A shell, and one with a looser table and with limits that are no narrower. -/
structure Shell.Looser (shell loose : Shell) : Prop where
  table : shell.table.Looser loose.table
  columns_le : shell.limits.columns ≤ loose.limits.columns
  projection_le : shell.limits.projection ≤ loose.limits.projection

/-- The same way to go on, with a looser table carried over. -/
inductive Continuation.Looser : Continuation → Continuation → Prop
  | proceed {carried carried' : Option Table} (h : Option.Rel Table.Looser carried carried') :
      Looser (.proceed carried) (.proceed carried')
  | stop (fault : Option Fault) : Looser (.stop fault) (.stop fault)

namespace Performance

variable {shell loose : Shell} {carried carried' : Option Table}

/-- A query, and its counterpart on a looser shell. -/
theorem agree_query (h : shell.Looser loose) (hcarried : Option.Rel Table.Looser carried carried')
    {q q' : Query} (hq : q.Counterpart shell.limits.projection loose.limits.projection q')
    (position : Position) :
    Agree Continuation.Looser shell loose (query position carried q)
      (query position carried' q') := by
  have hsource : Option.Rel Table.Looser (shell.source? position carried)
      (loose.source? position carried') := by
    rw [Shell.source?, Shell.source?]
    cases position.input with
    | mainTable => exact .some h.table
    | carried => exact hcarried
  generalize hs : shell.source? position carried = source at hsource
  generalize hs' : loose.source? position carried' = source' at hsource
  cases hsource with
  | none =>
    exact ⟨[], .error .missingInput, tells_query_of_no_source hs,
      .inr ⟨_, .error _, tells_query_of_no_source hs'⟩⟩
  | @some source source' hsource =>
    by_cases hempty : position.input = .mainTable ∧ (!source.hasData) = true
    · have hempty' := hempty
      rw [← hsource.hasData_eq] at hempty'
      have hy : Tells (query position carried' q') loose loose _ _ :=
        tells_query_of_empty hs' hempty'
      rw [hsource.lines_eq] at hy
      exact ⟨_, _, tells_query_of_empty hs hempty, .inr ⟨_, .ok (.stop none), hy⟩⟩
    · have hempty' := hempty
      rw [← hsource.hasData_eq] at hempty'
      generalize hx : q.apply source = x
      generalize hy : q'.apply source' = y
      rcases hq.apply h.projection_le hsource with
        hmatched | ⟨result, hresult, fault, hfault, hlimit⟩
      · rw [hx, hy] at hmatched
        cases hmatched with
        | error fault =>
          exact ⟨[], .error fault, tells_query_of_error hs hempty hx,
            .inr ⟨_, .error fault, tells_query_of_error hs' hempty' hy⟩⟩
        | @ok result result' hmatched =>
          obtain ⟨hresult, hnotices⟩ := hmatched
          have hhanded : Option.Rel Table.Looser (position.handedOn result)
              (position.handedOn result') := by
            rw [Position.handedOn, Position.handedOn]
            cases position.output with
            | carried => exact .some hresult
            | shown => exact .none
          have hshown : position.shown result' = position.shown result := by
            rw [Position.shown, Position.shown, hresult.lines_eq]
          have hy : Tells (query position carried' q') loose loose _ _ :=
            tells_query_of_ok hs' hempty' hy
          rw [hnotices, hshown] at hy
          exact ⟨_, _, tells_query_of_ok hs hempty hx, .inr ⟨_, .ok (.proceed hhanded), hy⟩⟩
      · exact ⟨_, _, tells_query_of_ok hs hempty hresult, .inl ⟨.fault fault,
          List.mem_append_left _ (List.mem_map_of_mem hfault), hlimit⟩⟩

/-- Queries, and their counterparts on a looser shell. -/
theorem agree_commands (h : shell.Looser loose) {queries queries' : List Query}
    (hqueries : List.Forall₂ (Query.Counterpart shell.limits.projection loose.limits.projection)
      queries queries') (progress : Progress)
    (hcarried : Option.Rel Table.Looser carried carried') :
    Agree Eq shell loose (commands progress carried (queries.map .query))
      (commands progress carried' (queries'.map .query)) := by
  induction hqueries generalizing progress carried carried' with
  | nil => exact .pure rfl
  | @cons q q' rest rest' hq hrest ih =>
    rw [List.map_cons, List.map_cons]
    unfold commands
    cases progress.next? with
    | none => exact .pure rfl
    | some handed =>
      obtain ⟨position, progress⟩ := handed
      refine (agree_query h hcarried hq position).bind (fun next ↦ ?_) ?_
      · cases next with
        | proceed carried =>
          have hqueries : ∀ c ∈ rest.map Command.query, ∃ q, c = .query q :=
            Command.exists_query_of_mem_map
          obtain ⟨remarks, -, hrun⟩ := run_commands
            (fun c hc ↦ hqueries c (List.mem_of_mem_tail hc)) progress carried shell
          rw [Shell.shell_run_of_queries hqueries] at hrun
          exact ⟨remarks, _, hrun⟩
        | stop fault =>
          cases fault with
          | none => exact ⟨[], .ok (), fun _ ↦ rfl⟩
          | some fault => exact ⟨[], .error fault, fun _ ↦ rfl⟩
      · rintro _ _ (hnext | (_ | fault))
        · exact ih progress hnext
        · exact .pure rfl
        · exact .throw Eq fault

end Performance

/-! ### Lines -/

/-- Commands that are queries have queries for their counterparts. -/
theorem Command.exists_queries_of_counterpart {caps caps' : Caps} {queries : List Query}
    {commands : List Command}
    (h : List.Forall₂ (Counterpart caps caps') (queries.map .query) commands) :
    ∃ queries' : List Query, commands = queries'.map .query ∧
      List.Forall₂ (Query.Counterpart caps.projection caps'.projection) queries queries' := by
  induction queries generalizing commands with
  | nil =>
    cases h
    exact ⟨[], rfl, .nil⟩
  | cons q rest ih =>
    rw [List.map_cons] at h
    cases h with
    | cons hq hrest =>
      cases hq with
      | @query _ q' hq =>
        obtain ⟨rest', rfl, hrest'⟩ := ih hrest
        exact ⟨q' :: rest', rfl, .cons hq hrest'⟩

namespace Performance

variable {shell loose changed : Shell} {remarks : List Remark} {line : String}

/-- A command that stands alone is all that its line comes to. -/
theorem tells_alone {c : Command}
    (hread : Command.readLine shell.caps line.toList = .ok [c])
    (h : Tells (command .only none c) shell changed remarks (.ok (.proceed none))) :
    Tells (attempt line) shell changed remarks (.ok ()) := by
  refine tells_attempt_of_ok hread fun display ↦ ?_
  rw [Command.pipesIn_of_readLine_alone hread]
  exact run_return_told (h display) rfl

theorem tells_alone_of_error {c : Command} {fault : Fault}
    (hread : Command.readLine shell.caps line.toList = .ok [c])
    (h : Tells (command .only none c) shell changed remarks (.error fault)) :
    Tells (attempt line) shell changed remarks (.error fault) := by
  refine tells_attempt_of_ok hread fun display ↦ ?_
  rw [Command.pipesIn_of_readLine_alone hread]
  exact run_bind_told_error (h display)

/-- Whether a limit is met by a line with these remarks and this ending. -/
def MeetsLimit (remarks : List Remark) (ending : Except Fault Unit) : Prop :=
  (∃ remark ∈ remarks, remark.isLimit) ∨ ∃ fault : Fault, ending = .error fault ∧ fault.isLimit

/-- A limit that is met by the attempt of a line is met by the answer to it. -/
theorem MeetsLimit.answer {ending : Except Fault Unit} (h : MeetsLimit remarks ending) :
    MeetsLimit (remarks ++ closing ending) (closed ending) := by
  rcases h with ⟨remark, hmem, hlimit⟩ | ⟨fault, rfl, hlimit⟩
  · exact .inl ⟨remark, List.mem_append_left _ hmem, hlimit⟩
  · by_cases hends : fault.endsRun = true
    · exact .inr ⟨fault, if_pos hends, hlimit⟩
    · have hclosing : closing (.error fault) = [.fault fault] := if_neg hends
      rw [hclosing]
      exact .inl ⟨.fault fault, List.mem_append_right _ (List.mem_singleton_self _), hlimit⟩

/-- The shell after the answer to a line is the one that its performance leaves. -/
theorem Tells.shell_eq {ending : Except Fault Unit}
    (h : Tells (Performance.answer line) shell changed remarks ending) :
    changed = (shell.answer line).shell := by
  rw [← Shell.shell_answerOn shell FaultLog.empty line, Shell.answerOn,
    outcome_of_told (h FaultLog.empty)]

/-- A row is added to a looser table with the same remarks, unless it meets a limit of the other
table. -/
theorem attempt_add_looser (h : shell.Looser loose) {values : List Int}
    (hread : Command.readLine shell.caps line.toList =
      .ok [.add ⟨values.take shell.caps.row, values.length⟩])
    (hread' : Command.readLine loose.caps line.toList =
      .ok [.add ⟨values.take loose.caps.row, values.length⟩]) :
    ∃ remarks ending changed, Tells (attempt line) shell changed remarks ending ∧
      (MeetsLimit remarks ending ∨ ∃ changed', changed.Looser changed' ∧
        Tells (attempt line) loose changed' remarks ending) := by
  rcases h.table.add_taken h.columns_le values with hmatched | ⟨fault, hlimit, hfault⟩
  · generalize hadd : shell.table.add _ shell.limits.columns = added at hmatched
    generalize hadd' : loose.table.add _ loose.limits.columns = added' at hmatched
    cases hmatched with
    | error fault =>
      exact ⟨[], .error fault, shell, tells_alone_of_error hread (tells_add_of_error hadd),
        .inr ⟨loose, h, tells_alone_of_error hread' (tells_add_of_error hadd')⟩⟩
    | @ok addition addition' hmatched =>
      obtain ⟨htable, hrow, hcut⟩ := hmatched
      have hremarks : additionRemarks addition' = additionRemarks addition := by
        rw [additionRemarks, additionRemarks, hrow, hcut, htable.columns_eq]
      have hloose : Tells (attempt line) loose _ _ _ :=
        tells_alone hread' (tells_add_of_ok hadd')
      rw [hremarks] at hloose
      exact ⟨_, .ok (), _, tells_alone hread (tells_add_of_ok hadd),
        .inr ⟨{ loose with table := addition'.table },
          ⟨htable, h.columns_le, h.projection_le⟩, hloose⟩⟩
  · exact ⟨[], .error fault, shell, tells_alone_of_error hread (tells_add_of_error hfault),
      .inl (.inr ⟨fault, rfl, hlimit⟩)⟩

/-- A line is attempted on a looser shell with the same remarks and the same ending, and leaves it
looser, unless it meets a limit on the other shell. -/
theorem attempt_looser (h : shell.Looser loose) (line : String) :
    ∃ remarks ending changed, Tells (attempt line) shell changed remarks ending ∧
      (MeetsLimit remarks ending ∨ ∃ changed', changed.Looser changed' ∧
        Tells (attempt line) loose changed' remarks ending) := by
  have hmatched := Command.readLine_matched shell.caps loose.caps line.toList
  generalize hread : Command.readLine shell.caps line.toList = read at hmatched
  generalize hread' : Command.readLine loose.caps line.toList = read' at hmatched
  cases hmatched with
  | error fault =>
    exact ⟨[], .error fault, shell, tells_attempt_of_error hread,
      .inr ⟨loose, h, tells_attempt_of_error hread'⟩⟩
  | @ok commands commands' hcommands =>
    rcases Command.readLine_cases hread with rfl | ⟨fields, rfl⟩ | rfl | ⟨queries, rfl⟩
    · cases hcommands
      exact ⟨[], .ok (), shell, tells_attempt_of_ok hread fun _ ↦ rfl,
        .inr ⟨loose, h, tells_attempt_of_ok hread' fun _ ↦ rfl⟩⟩
    · cases hcommands with
      | cons hadd hnil =>
        cases hnil
        cases hadd with
        | add values => exact attempt_add_looser h hread hread'
    · cases hcommands with
      | cons hprint hnil =>
        cases hnil
        cases hprint
        have hprint' : Tells (command .only none .print) loose loose _ _ := tells_print
        rw [h.table.lines_eq] at hprint'
        exact ⟨_, .ok (), shell, tells_alone hread tells_print,
          .inr ⟨loose, h, tells_alone hread' hprint'⟩⟩
    · obtain ⟨queries', rfl, hqueries⟩ := Command.exists_queries_of_counterpart hcommands
      obtain ⟨remarks, ending, hx, hy⟩ := agree_commands h hqueries
        (Progress.start (Command.pipesIn line.toList)) .none
      refine ⟨remarks, ending, shell, tells_attempt_of_ok hread hx, hy.imp .inl ?_⟩
      rintro ⟨_, hending, hy⟩
      obtain rfl := hending.eq
      exact ⟨loose, h, tells_attempt_of_ok hread' hy⟩

end Performance

namespace Shell

/-- Whether a line meets no limit: none of the faults that are shown for it comes from one, and
neither does the fault that it ends with. -/
def Unhindered (shell : Shell) (line : String) : Prop :=
  let outcome := shell.answerOn FaultLog.empty line
  (∀ fault ∈ outcome.display.faults, ¬ fault.isLimit) ∧ ∀ fault ∈ outcome.fault, ¬ fault.isLimit

instance (shell : Shell) (line : String) : Decidable (shell.Unhindered line) :=
  inferInstanceAs (Decidable (_ ∧ _))

variable {shell loose : Shell} {line : String}

/-- No remark is about a limit that is made for a line that meets none. -/
theorem Unhindered.not_meetsLimit (h : shell.Unhindered line) {changed : Shell}
    {remarks : List Remark} {ending : Except Fault Unit}
    (htells : Performance.Tells (Performance.answer line) shell changed remarks ending) :
    ¬ Performance.MeetsLimit remarks ending := by
  have houtcome := Performance.outcome_of_told (htells FaultLog.empty)
  obtain ⟨hnone, hfaults⟩ := FaultLog.takeAll_eq FaultLog.empty remarks
  rw [hnone] at houtcome
  obtain ⟨hshown, hended⟩ := h
  rw [answerOn, houtcome] at hshown hended
  rintro (⟨remark, hmem, hlimit⟩ | ⟨fault, rfl, hlimit⟩)
  · cases remark with
    | line text => cases hlimit
    | fault cause => exact hshown cause (hfaults cause (.inr hmem)) hlimit
  · exact hended fault rfl hlimit

/-- A line that meets no limit is answered on a looser shell with the same remarks and the same
ending, and leaves it looser. -/
theorem Looser.answer (h : shell.Looser loose) (hline : shell.Unhindered line) :
    ∃ remarks ending, (shell.answer line).shell.Looser (loose.answer line).shell ∧
      Performance.Tells (Performance.answer line) shell (shell.answer line).shell remarks ending ∧
      Performance.Tells (Performance.answer line) loose (loose.answer line).shell remarks
        ending := by
  obtain ⟨remarks, ending, changed, hx, hy⟩ := Performance.attempt_looser h line
  have hfree := mt Performance.MeetsLimit.answer (hline.not_meetsLimit hx.answer)
  obtain ⟨changed', hchanged, hloose⟩ := hy.resolve_left hfree
  obtain rfl := Performance.Tells.shell_eq hx.answer
  obtain rfl := Performance.Tells.shell_eq hloose.answer
  exact ⟨_, _, hchanged, hx.answer, hloose.answer⟩

/-! ### Several lines -/

variable {limits wider : Limits} {lines : List String}

/-- A new shell under wider limits is looser. -/
theorem Looser.start (hrows : limits.rows ≤ wider.rows) (hcolumns : limits.columns ≤ wider.columns)
    (hprojection : limits.projection ≤ wider.projection) :
    (start limits).Looser (start wider) :=
  ⟨⟨.empty limits.rows, rfl, rfl, hrows⟩, hcolumns, hprojection⟩

/-- It stays looser as long as no line meets a limit of the other one. -/
theorem Looser.after (h : shell.Looser loose)
    (hlines : ∀ n (hn : n < lines.length),
      (shell.after ((lines.take n).map .answer)).Unhindered lines[n])
    (n : Nat) (hn : n ≤ lines.length) :
    (shell.after ((lines.take n).map .answer)).Looser
      (loose.after ((lines.take n).map .answer)) := by
  induction n with
  | zero => exact h
  | succ n ih =>
    have hnext : lines.take (n + 1) = lines.take n ++ [lines[n]] :=
      (List.take_append_getElem hn).symm
    obtain ⟨-, -, hlooser, -⟩ := (ih (Nat.le_of_lt hn)).answer (hlines n hn)
    rw [hnext, List.map_append, after_append, after_append]
    exact hlooser

/-- Give two new shells the same lines, one of the shells under limits that are no narrower. If no
line meets a limit of the other shell, then on every display each line has the same effect and the
same fault in both, and leaves the same rows and the same width. -/
theorem wider_limits_change_nothing (hrows : limits.rows ≤ wider.rows)
    (hcolumns : limits.columns ≤ wider.columns) (hprojection : limits.projection ≤ wider.projection)
    (hlines : ∀ n (hn : n < lines.length),
      ((start limits).after ((lines.take n).map .answer)).Unhindered lines[n]) :
    ∀ n (hn : n < lines.length) {σ : Type} [Display σ] (display : σ),
      let outcome :=
        ((start limits).after ((lines.take n).map .answer)).answerOn display lines[n]
      let outcome' :=
        ((start wider).after ((lines.take n).map .answer)).answerOn display lines[n]
      outcome'.display = outcome.display ∧ outcome'.fault = outcome.fault ∧
        outcome'.shell.table.rows = outcome.shell.table.rows ∧
        outcome'.shell.table.width = outcome.shell.table.width := by
  intro n hn σ _ display outcome outcome'
  have hbefore := (Looser.start hrows hcolumns hprojection).after hlines n (Nat.le_of_lt hn)
  obtain ⟨remarks, ending, hafter, hx, hy⟩ := hbefore.answer (hlines n hn)
  have houtcome : outcome = ⟨_, _, _⟩ := Performance.outcome_of_told (hx display)
  have houtcome' : outcome' = ⟨_, _, _⟩ := Performance.outcome_of_told (hy display)
  rw [houtcome, houtcome']
  exact ⟨rfl, rfl, hafter.table.rows_eq, hafter.table.width_eq⟩

/-- A projection that was cut, onto a column that does not exist, onto an empty table, and one that
is not the first of its line. -/
theorem wider_limits_change_nothing_silent_cut :
    let limits : Limits := ⟨2, 2, 1, 10⟩
    let wider : Limits := ⟨4, 3, 3, 0⟩
    let lines := ["p1,2", "a7,8", "p3,1", "p1|p2,1", "a4,5,6"]
    (∀ n (hn : n < lines.length),
      ((start limits).after ((lines.take n).map .answer)).Unhindered lines[n]) ∧
    let narrow := (start limits).after [.answer "p1,2", .answer "a7,8"]
    let wide := (start wider).after [.answer "p1,2", .answer "a7,8"]
    Command.readLine narrow.caps "p3,1".toList ≠ Command.readLine wide.caps "p3,1".toList ∧
      (wide.answerOn LineLog.empty "p3,1").display = ⟨#["Invalid column 3."]⟩ := by
  intro limits wider lines
  have hlines : ∀ n (hn : n < lines.length),
      ((start limits).after ((lines.take n).map .answer)).Unhindered lines[n] := by
    decide +kernel
  refine ⟨hlines, ?_, ?_⟩
  · decide +kernel
  · have hsame := wider_limits_change_nothing (show limits.rows ≤ wider.rows by decide)
      (by decide) (by decide) hlines 2 (by decide) LineLog.empty
    exact hsame.1.trans (by decide +kernel)

end Shell

end TableShell
