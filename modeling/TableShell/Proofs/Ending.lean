import TableShell.Proofs.AddLine
import TableShell.Proofs.Misreading
import TableShell.Proofs.QueryLine

/-!
# Lines that end the run

A line can go wrong in many ways, and one of them ends the run: it writes a row that is to fix the
width and has too many values (`Shell.overwide_of_attempt`). All of the row has to be readable for
that, also what is past the limit, and it does not matter whether there is room for a row at all.

The other faults are met in three places, and in each of them by a reason of its own. A line that
cannot be read has a fault of its text. An addition to a table whose width is fixed can only be too
narrow or find no room. Queries on a table that is well-formed can only miss a column. So after the
first row nothing ends the run (`Reachable.answer_fault_iff`).
-/

namespace TableShell

/-- Queries on plain lists fail only for want of a column. -/
theorem Query.exists_column_of_evaluate {rows : List Row} {width : Nat} {queries : List Query}
    {fault : Fault} (h : (evaluate rows width queries).2 = some fault) :
    ∃ c, fault = .noSuchColumn c := by
  induction queries generalizing rows width with
  | nil => cases h
  | cons query rest ih =>
    rcases query with ⟨columns, requested⟩ | condition
    · rw [evaluate] at h
      split at h
      · exact ⟨_, (Option.some.inj h).symm⟩
      · exact ih h
    · rw [evaluate] at h
      split at h
      · exact ih h
      · exact ⟨_, (Option.some.inj h).symm⟩

namespace Reply

variable {reply : Reply} {fault : Fault}

/-- A fault that ends the run is not shown. -/
theorem report_eq_self (hfault : reply.fault = some fault) (hends : fault.endsRun) :
    reply.report = reply := by
  rw [report, hfault]
  exact if_pos hends

/-- The fault that is left of a reply is its own, if that ends the run. -/
theorem fault_report_eq_some_iff :
    reply.report.fault = some fault ↔ reply.fault = some fault ∧ fault.endsRun := by
  constructor
  · intro h
    rw [report] at h
    rcases hown : reply.fault with - | own
    · rw [hown] at h
      rw [← hown]
      cases hown.symm.trans h
    · rw [hown] at h
      dsimp only at h
      split at h
      · rename_i hends
        obtain rfl := Option.some.inj (hown.symm.trans h)
        exact ⟨rfl, hends⟩
      · cases h
  · rintro ⟨hown, hends⟩
    rw [report_eq_self hown hends, hown]

end Reply

namespace Shell

variable {limits : Limits} {shell : Shell} {line : String} {values : List Int} {fault : Fault}

/-- A line that writes a row of the given values: an `a`, no pipe, and tokens between commas, each
of them a positive numeral of 64 bits. -/
structure Writes (line : String) (values : List Int) : Prop where
  reads : ∃ argument, line.toList = 'a' :: argument ∧ '|' ∉ argument ∧
    ((argument.splitOn ',').filter (!·.isEmpty)).map Numeral.int64? = values.map some
  pos : ∀ n ∈ values, 0 < n

/-- A line is read as a row to add exactly if it writes one that has values. -/
theorem readLine_eq_add_iff_writes {caps : Command.Caps} {fields : IntegerList} :
    Command.readLine caps line.toList = .ok [.add fields] ↔
      ∃ values, Writes line values ∧ values ≠ [] ∧
        fields = ⟨values.take caps.row, values.length⟩ := by
  rw [Command.readLine_eq_add_iff]
  constructor
  · rintro ⟨argument, values, hline, hpipe, hne, htokens, hfields⟩
    obtain ⟨htokens, hpos⟩ := Numeral.map_positive?_eq_iff.1 htokens
    exact ⟨values, ⟨⟨argument, hline, hpipe, htokens⟩, hpos⟩, hne, hfields⟩
  · rintro ⟨values, ⟨⟨argument, hline, hpipe, htokens⟩, hpos⟩, hne, hfields⟩
    exact ⟨argument, values, hline, hpipe, hne, Numeral.map_positive?_eq_iff.2 ⟨htokens, hpos⟩,
      hfields⟩

/-- A row that is to fix the width and is too wide is not added, whether there is room or not. -/
theorem attempt_of_overwide (hopen : shell.table.width = none) (hwrites : Writes line values)
    (hwide : shell.limits.columns < values.length) :
    shell.attempt line =
      ⟨shell, [], some (.tooManyColumns values.length shell.limits.columns)⟩ := by
  have hne : values ≠ [] := List.ne_nil_of_length_pos (Nat.zero_lt_of_lt hwide)
  have hread : Command.readLine shell.caps line.toList =
      .ok [.add ⟨values.take shell.caps.row, values.length⟩] :=
    readLine_eq_add_iff_writes.2 ⟨values, hwrites, hne, rfl⟩
  have hfits : ¬ shell.table.Fits shell.limits.columns values.length := by
    rw [Table.Fits, hopen]
    exact Nat.not_le.2 hwide
  have hadd : shell.table.add ⟨values.take shell.caps.row, values.length⟩ shell.limits.columns =
      .error (.tooManyColumns values.length shell.limits.columns) := by
    refine (Table.add_taken_eq shell.table values shell.limits.columns).trans ?_
    rw [if_neg hfits, hopen]
  rw [attempt_of_add hread, hadd]

/-- If a line that is read as a row to add ends the run, the row is too wide. -/
theorem overwide_of_add {fields : IntegerList}
    (hread : Command.readLine shell.caps line.toList = .ok [.add fields])
    (hfault : shell.table.add fields shell.limits.columns = .error fault) (hends : fault.endsRun) :
    shell.table.width = none ∧
      ∃ values, Writes line values ∧ shell.limits.columns < values.length := by
  obtain ⟨values, hwrites, -, rfl⟩ := readLine_eq_add_iff_writes.1 hread
  have hadd := hfault.symm.trans (Table.add_taken_eq shell.table values shell.limits.columns)
  by_cases hfits : shell.table.Fits shell.limits.columns values.length
  · -- a row that fits can only lack room
    rw [if_pos hfits] at hadd
    split at hadd
    · cases hadd
    · rw [Except.error.inj hadd] at hends
      cases hends
  · rw [if_neg hfits] at hadd
    rcases hwidth : shell.table.width with - | width
    · rw [Table.Fits, hwidth] at hfits
      exact ⟨rfl, values, hwrites, Nat.not_le.1 hfits⟩
    · rw [hwidth] at hadd
      rw [Except.error.inj hadd] at hends
      cases hends

/-- The fault of a line is one of its text, of the addition that it asks for, or of a query that
misses a column. -/
theorem fault_attempt_cases (hsound : Sound limits shell)
    (hfault : (shell.attempt line).fault = some fault) :
    fault.OfText line.toList ∨
      (∃ fields, Command.readLine shell.caps line.toList = .ok [.add fields] ∧
        shell.table.add fields shell.limits.columns = .error fault) ∨
      ∃ c, fault = .noSuchColumn c := by
  rcases hread : Command.readLine shell.caps line.toList with cause | commands
  · rw [attempt, hread] at hfault
    obtain rfl := Option.some.inj hfault
    exact .inl (Command.ofText_of_readLine hread)
  · rcases Command.readLine_cases hread with rfl | ⟨fields, rfl⟩ | rfl | ⟨queries, rfl⟩
    · rw [attempt, hread] at hfault
      cases hfault
    · rw [attempt_of_add hread] at hfault
      rcases hadd : shell.table.add fields shell.limits.columns with cause | addition
      · rw [hadd] at hfault
        obtain rfl := Option.some.inj hfault
        exact .inr (.inl ⟨fields, rfl, hadd⟩)
      · rw [hadd] at hfault
        cases hfault
    · rw [attempt, hread, Command.pipesIn_of_readLine_alone hread] at hfault
      dsimp only at hfault
      rw [run_alone] at hfault
      cases hfault
    · by_cases hne : queries = []
      · rw [attempt, hread, hne] at hfault
        cases hfault
      · rw [attempt_of_queries hsound hne hread] at hfault
        dsimp only at hfault
        rw [Query.evaluateLine] at hfault
        split at hfault
        · cases hfault
        · exact .inr (.inr (Query.exists_column_of_evaluate hfault))

/-- If a line ends the run, no width is fixed, and the line writes a row that is too wide. -/
theorem overwide_of_attempt (hsound : Sound limits shell)
    (hfault : (shell.attempt line).fault = some fault) (hends : fault.endsRun) :
    shell.table.width = none ∧
      ∃ values, Writes line values ∧ shell.limits.columns < values.length := by
  rcases fault_attempt_cases hsound hfault with htext | ⟨fields, hread, hadd⟩ | ⟨c, rfl⟩
  · exact absurd hends htext.not_endsRun
  · exact overwide_of_add hread hadd hends
  · cases hends

/-- What is left of the fault of a line is that a row is too wide which is to fix the width. -/
theorem fault_answer_eq_some_iff (hsound : Sound limits shell) :
    (shell.answer line).fault = some fault ↔
      shell.table.width = none ∧ ∃ values, Writes line values ∧ limits.columns < values.length ∧
        fault = .tooManyColumns values.length limits.columns := by
  rw [answer, Reply.fault_report_eq_some_iff, ← hsound.limits_eq]
  constructor
  · rintro ⟨hfault, hends⟩
    obtain ⟨hopen, values, hwrites, hwide⟩ := overwide_of_attempt hsound hfault hends
    rw [attempt_of_overwide hopen hwrites hwide] at hfault
    exact ⟨hopen, values, hwrites, hwide, (Option.some.inj hfault).symm⟩
  · rintro ⟨hopen, values, hwrites, hwide, rfl⟩
    rw [attempt_of_overwide hopen hwrites hwide]
    exact ⟨rfl, rfl⟩

/-- A line that ends the run does nothing else. -/
theorem answer_of_fault (hsound : Sound limits shell)
    (hfault : (shell.answer line).fault = some fault) :
    shell.answer line = ⟨shell, [], some fault⟩ := by
  obtain ⟨hown, hends⟩ := Reply.fault_report_eq_some_iff.1 hfault
  obtain ⟨hopen, values, hwrites, hwide⟩ := overwide_of_attempt hsound hown hends
  have hattempt := attempt_of_overwide hopen hwrites hwide
  rw [answer, Reply.report_eq_self hown hends, ← hown, hattempt]

namespace Reachable

/-- On a display that refuses nothing, an answered line comes to a fault exactly if no width is
fixed and the line writes a row with too many values. The fault then tells how many, and nothing is
shown or changed. Once there is a row, no line comes to a fault, whatever lines come between. -/
theorem answer_fault_iff (h : Reachable limits shell) (line : String) {σ : Type} [Display σ]
    [WillingDisplay σ] (display : σ) :
    (∀ fault, (shell.answerOn display line).fault = some fault ↔
      ¬ shell.isStarted ∧ ∃ values, Writes line values ∧ limits.columns < values.length ∧
        fault = .tooManyColumns values.length limits.columns) ∧
    (∀ fault, (shell.answerOn display line).fault = some fault →
      shell.answerOn display line = ⟨shell, display, some fault⟩) ∧
    (0 < shell.size → ∀ later, Relation.ReflTransGen Transition shell later →
      ∀ (next : String) {τ : Type} [Display τ] [WillingDisplay τ] (other : τ),
        (later.answerOn other next).fault = none) := by
  have hsound := h.sound
  have hopen : ∀ s : Shell, ¬ s.isStarted ↔ s.table.width = none := fun s ↦
    Option.not_isSome_iff_eq_none
  refine ⟨fun fault ↦ ?_, fun fault hfault ↦ ?_, fun hrow later hlater next τ _ _ other ↦ ?_⟩
  · rw [fault_answerOn_of_willing, hopen]
    exact fault_answer_eq_some_iff hsound
  · rw [fault_answerOn_of_willing] at hfault
    have hanswer := answer_of_fault hsound hfault
    rw [answerOn_of_lines_eq_nil (congrArg Reply.lines hanswer), hanswer]
  · -- the width that the row has fixed is still there
    have hstarted : shell.isStarted := hsound.isStarted_iff.2 hrow
    have hwidth : later.table.width = shell.table.width := width_eq_of_transitions hstarted hlater
    have hlaterSound : Sound limits later := sound (h.trans hlater)
    rw [fault_answerOn_of_willing]
    refine Option.eq_none_iff_forall_ne_some.2 fun fault hfault ↦ ?_
    have hnone := ((fault_answer_eq_some_iff hlaterSound).1 hfault).1
    rw [hwidth] at hnone
    exact (hopen shell).2 hnone hstarted

/-- A row of three values that is too wide for a shell without room for a row, one that would be too
wide but has a bad token past the limit, and one that is cut behind a first row. -/
theorem answer_fault_iff_no_room :
    let limits : Limits := ⟨2, 0, 1, 10⟩
    let full := ((start limits).answerOn LineLog.empty "a1,2").shell
    let shell := ((start ⟨2, 1, 1, 10⟩).answerOn LineLog.empty "a1,2").shell
    Reachable limits full ∧
      full.answerOn LineLog.empty "a1,,+2,3" = ⟨full, LineLog.empty, some (.tooManyColumns 3 2)⟩ ∧
      (full.answerOn LineLog.empty "a1,2,3,x").fault = none ∧
      0 < shell.size ∧ (shell.answerOn LineLog.empty "a1,2,3").fault = none := by
  intro limits full shell
  have h : Reachable limits full := .single (.answer LineLog.empty "a1,2")
  have h' : Reachable ⟨2, 1, 1, 10⟩ shell := .single (.answer LineLog.empty "a1,2")
  have hrow : 0 < shell.size := by decide +kernel
  refine ⟨h, ?_, ?_, hrow, (answer_fault_iff h' "?" LineLog.empty).2.2 hrow shell .refl _ _⟩
  · have hwrites : Writes "a1,,+2,3" [1, 2, 3] :=
      ⟨⟨"1,,+2,3".toList, by decide +kernel, by decide +kernel, by decide +kernel⟩, by decide⟩
    obtain ⟨hiff, hnothing, -⟩ := answer_fault_iff h "a1,,+2,3" LineLog.empty
    exact hnothing _ ((hiff _).2 ⟨by decide +kernel, _, hwrites, by decide, rfl⟩)
  · refine Option.eq_none_iff_forall_ne_some.2 fun fault hfault ↦ ?_
    obtain ⟨-, values, hwrites, -, -⟩ := ((answer_fault_iff h _ LineLog.empty).1 fault).1 hfault
    obtain ⟨argument, hline, -, htokens⟩ := hwrites.reads
    obtain rfl : "1,2,3,x".toList = argument := (List.cons.inj hline).2
    have hnone : (none : Option Int) ∈ values.map some := by
      rw [← htokens]
      decide +kernel
    obtain ⟨n, -, hn⟩ := List.mem_map.1 hnone
    cases hn

end Reachable

end Shell

end TableShell
