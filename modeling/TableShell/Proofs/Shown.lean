import TableShell.Proofs.Line

/-!
# What lines are shown

Whatever is not the echo of an addition is plain: the notice that there is no data, the text of a
row, or the message of a fault (`Shell.Plain`). All lines are plain that are shown for a line that
adds no row, be it attempted or answered. Up to the fault that it may end with, such a line shows
nothing but tables and that projections were cut (`Shell.Displayed`).

An echo is recognized by its beginning. No plain line begins like that (`Plain.not_isEcho`), for no
message of a fault has the first letter of an echo, and the text of a row has no letters at all
(`Row.forall_mem_text`).
-/

namespace TableShell

/-! ### The texts of rows -/

/-- The text of an integer has a digit in each place, or a sign. -/
theorem Numeral.forall_mem_text (n : Int) :
    ∀ c ∈ (Numeral.text n).toList, c.isDigit ∨ c = '-' := by
  intro c hc
  cases n with
  | ofNat n => exact .inl (isDigit_of_mem_repr hc)
  | negSucc n =>
    rw [Numeral.text, String.toList_append] at hc
    rcases List.mem_append.1 hc with hc | hc
    · exact .inr (List.mem_singleton.1 hc)
    · exact .inl (isDigit_of_mem_repr hc)

/-- The text of a row has a digit in each place, or a sign, a comma or a blank. -/
theorem Row.forall_mem_text (row : Row) :
    ∀ c ∈ row.text.toList, c.isDigit ∨ c = '-' ∨ c = ',' ∨ c = ' ' := by
  induction row with
  | nil => simp [Row.text]
  | cons n rest ih =>
    intro c hc
    have hvalue : c ∈ (Numeral.text n).toList → c.isDigit ∨ c = '-' ∨ c = ',' ∨ c = ' ' := by
      intro hmem
      rcases Numeral.forall_mem_text n c hmem with hdigit | hsign
      · exact .inl hdigit
      · exact .inr (.inl hsign)
    rw [Row.text, List.map_cons] at hc
    by_cases hrest : rest.map Numeral.text = []
    · rw [hrest, String.intercalate_singleton] at hc
      exact hvalue hc
    · rw [String.intercalate_cons_of_ne_nil hrest, String.toList_append, String.toList_append] at hc
      rcases List.mem_append.1 hc with hc | hc
      · rcases List.mem_append.1 hc with hc | hc
        · exact hvalue hc
        · have hseparator : c = ',' ∨ c = ' ' := by
            have hmem : c ∈ [',', ' '] := hc
            simpa using hmem
          exact .inr (.inr hseparator)
      · exact ih c hc

/-! ### Echoes -/

namespace Shell

/-- Whether a line begins as the echo of an addition does. -/
def IsEcho (line : String) : Prop :=
  addedMark.toList <+: line.toList

/-- An echo has an `A` in front. -/
theorem IsEcho.head? {line : String} (h : IsEcho line) : line.toList.head? = some 'A' := by
  obtain ⟨rest, hrest⟩ := h
  rw [← hrest]
  rfl

end Shell

namespace Fault

/-- What is written behind a text does not change its first letter. -/
theorem head?_append {text : String} {c : Char} (h : text.toList.head? = some c) (more : String) :
    (text ++ more).toList.head? = some c := by
  rw [String.toList_append, List.head?_append, h, Option.some_or]

/-- No message of a fault has an `A` in front. -/
theorem head?_message (fault : Fault) : fault.message.toList.head? ≠ some 'A' := by
  have hother : ∀ {c : Char}, c ≠ 'A' → ∀ {text : String}, text.toList.head? = some c →
      text.toList.head? ≠ some 'A' := by
    intro c hc text htext hA
    exact hc (Option.some.inj (htext.symm.trans hA))
  cases fault with
  | badArgument letter cause =>
    exact hother (c := 'I') (by decide) (head?_append (head?_append (head?_append rfl _) _) _)
  | noSuchColumn column =>
    exact hother (c := 'I') (by decide) (head?_append (head?_append rfl _) _)
  | unknownLetter letter =>
    exact hother (c := 'U') (by decide) (head?_append (head?_append rfl _) _)
  | unpipeable letter =>
    exact hother (c := 'C') (by decide) (head?_append (head?_append rfl _) _)
  | blankStage => exact hother (c := 'E') (by decide) (by decide +kernel)
  | missingInput => exact hother (c := 'P') (by decide) (by decide +kernel)
  | widthMismatch expected got =>
    rcases Nat.lt_or_ge got expected with hnarrow | hwide
    · rw [message_of_narrow hnarrow]
      exact hother (c := 'R') (by decide) (head?_append (head?_append rfl _) _)
    · rw [message_of_wide hwide]
      exact hother (c := 'R') (by decide)
        (head?_append (head?_append (head?_append (head?_append rfl _) _) _) _)
  | noRoom limit => exact hother (c := 'C') (by decide) (head?_append rfl _)
  | projectionCut requested kept =>
    exact hother (c := 'P') (by decide)
      (head?_append (head?_append (head?_append (head?_append rfl _) _) _) _)
  | tooManyColumns got limit =>
    exact hother (c := 'I') (by decide) (head?_append (head?_append (head?_append rfl _) _) _)
  | io reason => exact hother (c := 'I') (by decide) (head?_append rfl _)

end Fault

namespace Shell

/-- What is shown for a line that adds nothing: the notice that there is no data, the text of a row,
or the message of a fault. -/
inductive Plain : String → Prop
  | noData : Plain Table.emptyNotice
  | row (row : Row) : Plain row.text
  | fault (fault : Fault) : Plain fault.message

/-- A plain line is no echo. -/
theorem Plain.not_isEcho {line : String} (h : Plain line) : ¬ IsEcho line := by
  intro hecho
  have hhead := hecho.head?
  cases h with
  | noData => exact absurd hhead (by decide)
  | row row =>
    have hletter := Row.forall_mem_text row 'A' (List.mem_of_mem_head? hhead)
    exact absurd hletter (by decide)
  | fault fault => exact Fault.head?_message fault hhead

/-! ### Lines that add nothing -/

/-- The only notice of a query is that it was cut. -/
theorem exists_eq_cut_of_mem_notices {query : Query} {fault : Fault} (h : fault ∈ query.notices) :
    ∃ requested kept, fault = .projectionCut requested kept := by
  rcases query with ⟨columns, requested⟩ | condition
  · rw [Query.notices] at h
    split at h
    · exact ⟨_, _, List.mem_singleton.1 h⟩
    · cases h
  · cases h

/-- What is shown by prints and queries: lines of tables, and the notice that a projection was
cut. -/
inductive Displayed : String → Prop
  | ofTable {table : Table} {line : String} (h : line ∈ table.lines) : Displayed line
  | cut (requested kept : Nat) : Displayed (Fault.projectionCut requested kept).message

/-- A table is shown in plain lines, and so is that a projection was cut. -/
theorem Displayed.plain {line : String} (h : Displayed line) : Plain line := by
  rcases h with h | ⟨requested, kept⟩
  · rw [Table.lines] at h
    split at h
    · obtain ⟨row, -, hrow⟩ := List.mem_filterMap.1 h
      rw [Row.shown?] at hrow
      split at hrow
      · obtain rfl := Option.some.inj hrow
        exact .row row
      · cases hrow
    · obtain rfl := List.mem_singleton.1 h
      exact .noData
  · exact .fault _

variable {shell : Shell} {line : String}

/-- A query shows its notices and lines of tables. -/
theorem displayed_of_mem_stepQuery {position : Position} {carried : Option Table} {query : Query}
    (h : line ∈ (shell.stepQuery position carried query).lines) : Displayed line := by
  have hnotice : line ∈ query.notices.map Fault.message → Displayed line := by
    intro hmem
    obtain ⟨fault, hfault, rfl⟩ := List.mem_map.1 hmem
    obtain ⟨requested, kept, rfl⟩ := exists_eq_cut_of_mem_notices hfault
    exact .cut requested kept
  unfold stepQuery at h
  cases hsource : shell.source? position carried with
  | none =>
    rw [hsource] at h
    cases h
  | some source =>
    rw [hsource] at h
    dsimp only at h
    split at h
    · exact .ofTable h
    · cases hresult : query.apply source with
      | error fault =>
        rw [hresult] at h
        cases h
      | ok result =>
        rw [hresult] at h
        cases hout : position.output with
        | carried =>
          rw [hout] at h
          exact hnotice h
        | shown =>
          rw [hout] at h
          rcases List.mem_append.1 h with h | h
          · exact hnotice h
          · exact .ofTable h

/-- So do any number of queries. -/
theorem displayed_of_mem_run {commands : List Command}
    (hqueries : ∀ c ∈ commands, ∃ q, c = .query q) {progress : Progress} {carried : Option Table}
    (h : line ∈ (shell.run progress carried commands).lines) : Displayed line := by
  induction commands generalizing shell progress carried with
  | nil => cases h
  | cons c rest ih =>
    obtain ⟨⟨query, rfl⟩, hrest⟩ := List.forall_mem_cons.1 hqueries
    rw [run] at h
    cases hnext : progress.next? with
    | none =>
      rw [hnext] at h
      cases h
    | some handed =>
      rw [hnext] at h
      dsimp only at h
      cases hstep : (shell.step handed.1 carried (.query query)).next with
      | stop fault =>
        rw [hstep] at h
        exact displayed_of_mem_stepQuery h
      | proceed carried =>
        rw [hstep] at h
        rcases List.mem_append.1 h with h | h
        · exact displayed_of_mem_stepQuery h
        · exact ih hrest h

/-- So does every line that is not read as a row to add. -/
theorem displayed_of_mem_attempt {input : String}
    (hread : ∀ fields, Command.readLine shell.caps input.toList ≠ .ok [.add fields])
    (h : line ∈ (shell.attempt input).lines) : Displayed line := by
  rw [attempt] at h
  cases hcommands : Command.readLine shell.caps input.toList with
  | error fault =>
    rw [hcommands] at h
    cases h
  | ok commands =>
    rw [hcommands] at h
    rcases Command.readLine_cases hcommands with rfl | ⟨fields, rfl⟩ | rfl | ⟨queries, rfl⟩
    · cases h
    · exact absurd hcommands (hread fields)
    · have hpipes : Command.pipesIn input.toList = 0 := Command.pipesIn_of_readLine_alone hcommands
      rw [hpipes] at h
      dsimp only at h
      rw [run_alone] at h
      exact .ofTable h
    · exact displayed_of_mem_run Command.exists_query_of_mem_map h

/-- A line that is not read as a row to add shows plain lines. -/
theorem plain_of_mem_attempt {input : String}
    (hread : ∀ fields, Command.readLine shell.caps input.toList ≠ .ok [.add fields])
    (h : line ∈ (shell.attempt input).lines) : Plain line :=
  (displayed_of_mem_attempt hread h).plain

/-- The fault that an answer shows is a plain line. -/
theorem plain_of_mem_report {reply : Reply} (hlines : ∀ l ∈ reply.lines, Plain l)
    (h : line ∈ reply.report.lines) : Plain line := by
  obtain ⟨shell, lines, fault⟩ := reply
  cases fault with
  | none => exact hlines line h
  | some fault =>
    rw [Reply.report] at h
    dsimp only at h
    split at h
    · exact hlines line h
    · rcases List.mem_append.1 h with h | h
      · exact hlines line h
      · obtain rfl := List.mem_singleton.1 h
        exact .fault fault

end Shell

end TableShell
