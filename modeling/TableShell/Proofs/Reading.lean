import TableShell.Command
import TableShell.Proofs.Sequence

/-!
# What a line is read as

The readers from the inside out, each characterized by when it succeeds and with what: a numeral, a
list of integers (`read_eq_ok_iff`), the argument of a verb, a stage (`readStage_eq_ok_iff`), a line
(`readLine_eq_ok_iff`). Lists are read to their end before they are cut, so whether a list can be
read does not depend on the cap.

Of a line that can be read two things matter to whoever runs it. It has one command more than it
has pipes (`length_of_readLine`), and unless it has no pipe all of its commands are queries
(`exists_query_of_readLine`).
-/

namespace TableShell

/-! ### Numerals and tokens -/

namespace Numeral

/-- A positive numeral is a cell of a table: it is at least one and fits into 64 bits. -/
theorem positive?_bounds {chars : List Char} {n : Int} (h : positive? chars = some n) :
    1 ≤ n ∧ n ≤ 0x7FFFFFFFFFFFFFFF := by
  obtain ⟨h64, hpos⟩ := Option.filter_eq_some_iff.1 h
  obtain ⟨-, hrange⟩ := Option.filter_eq_some_iff.1 h64
  have hpos : 0 < n := of_decide_eq_true hpos
  have hrange : -0x8000000000000000 ≤ n ∧ n < 0x8000000000000000 := of_decide_eq_true hrange
  omega

/-- The positive numerals are the numerals of 64 bits with a value above zero, also one by one in
lists. -/
theorem map_positive?_eq_iff {tokens : List (List Char)} {values : List Int} :
    tokens.map positive? = values.map some ↔
      tokens.map int64? = values.map some ∧ ∀ n ∈ values, 0 < n := by
  induction tokens generalizing values with
  | nil => cases values <;> simp
  | cons token rest ih =>
    cases values with
    | nil => simp
    | cons n values =>
      have hn : positive? token = some n ↔ int64? token = some n ∧ 0 < n := by
        rw [positive?, Option.filter_eq_some_iff, decide_eq_true_iff]
      rw [List.map_cons, List.map_cons, List.map_cons, List.cons.injEq, List.cons.injEq, hn, ih,
        List.forall_mem_cons]
      exact and_and_and_comm

end Numeral

namespace Token

/-- The tokens of a text have values exactly if each of them is a positive numeral. -/
theorem values_eq_ok_iff {isSeparator : Char → Bool} {text : List Char} {values : List Int} :
    Token.values isSeparator text = .ok values ↔
      (split isSeparator text).map Numeral.positive? = values.map some := by
  rw [Token.values, Sequence.mapM_eq_ok_iff]
  induction split isSeparator text generalizing values with
  | nil => simp
  | cons token rest ih =>
    cases values with
    | nil => simp
    | cons n values =>
      rw [List.map_cons, List.map_cons, List.map_cons, List.map_cons, List.cons.injEq,
        List.cons.injEq, value_eq_ok_iff, ih]

end Token

/-- A list can be read exactly if it has tokens and each of them is a positive numeral. Only the
values up to the cap are kept, but all tokens are counted. -/
theorem IntegerList.read_eq_ok_iff {separator : Char} {cap : Nat} {text : List Char}
    {list : IntegerList} :
    IntegerList.read separator cap text = .ok list ↔
      ∃ values, values ≠ [] ∧
        (Token.split (· == separator) text).map Numeral.positive? = values.map some ∧
        list = ⟨values.take cap, values.length⟩ := by
  rw [IntegerList.read, Sequence.bind_eq_ok_iff]
  constructor
  · rintro ⟨values, hvalues, h⟩
    cases values with
    | nil => simp at h
    | cons n rest =>
      exact ⟨n :: rest, List.cons_ne_nil _ _, Token.values_eq_ok_iff.1 hvalues,
        (Except.ok.inj h).symm⟩
  · rintro ⟨values, hne, hvalues, rfl⟩
    refine ⟨values, Token.values_eq_ok_iff.2 hvalues, ?_⟩
    rw [if_neg (by simpa using hne)]

namespace Command

variable {caps : Caps} {piped : Bool} {line stage argument : List Char} {command : Command}
  {commands : List Command}

/-! ### Stages -/

/-- A row can be read exactly if its list can. -/
theorem readArgument_add_eq_ok_iff :
    readArgument caps .add argument = .ok command ↔
      ∃ values, values ≠ [] ∧
        (Token.split (· == ',') argument).map Numeral.positive? = values.map some ∧
        command = .add ⟨values.take caps.row, values.length⟩ := by
  rw [readArgument, Sequence.bind_eq_ok_iff]
  constructor
  · rintro ⟨list, hlist, h⟩
    obtain ⟨values, hne, hvalues, rfl⟩ := IntegerList.read_eq_ok_iff.1 hlist
    exact ⟨values, hne, hvalues, (Except.ok.inj h).symm⟩
  · rintro ⟨values, hne, hvalues, rfl⟩
    exact ⟨_, IntegerList.read_eq_ok_iff.2 ⟨values, hne, hvalues, rfl⟩, rfl⟩

/-- A projection can be read exactly if its list can. -/
theorem readArgument_project_eq_ok_iff :
    readArgument caps .project argument = .ok command ↔
      ∃ values, values ≠ [] ∧
        (Token.split (· == ',') argument).map Numeral.positive? = values.map some ∧
        command =
          .query (.project ((values.take caps.projection).map Int.toNat) values.length) := by
  rw [readArgument, Sequence.bind_eq_ok_iff]
  constructor
  · rintro ⟨list, hlist, h⟩
    obtain ⟨values, hne, hvalues, rfl⟩ := IntegerList.read_eq_ok_iff.1 hlist
    exact ⟨values, hne, hvalues, (Except.ok.inj h).symm⟩
  · rintro ⟨values, hne, hvalues, rfl⟩
    exact ⟨_, IntegerList.read_eq_ok_iff.2 ⟨values, hne, hvalues, rfl⟩, rfl⟩

/-- A selection can be read exactly if its condition can. -/
theorem readArgument_select_eq_ok_iff :
    readArgument caps .select argument = .ok command ↔
      ∃ condition, Condition.read argument = .ok condition ∧
        command = .query (.select condition) := by
  rw [readArgument, Sequence.bind_eq_ok_iff]
  constructor
  · rintro ⟨condition, hcondition, h⟩
    exact ⟨condition, hcondition, (Except.ok.inj h).symm⟩
  · rintro ⟨condition, hcondition, rfl⟩
    exact ⟨condition, hcondition, rfl⟩

/-- An argument makes a command of the verb it is given to. -/
theorem verb_of_readArgument {verb : Verb} (h : readArgument caps verb argument = .ok command) :
    command.verb = verb := by
  cases verb with
  | add =>
    obtain ⟨values, -, -, rfl⟩ := readArgument_add_eq_ok_iff.1 h
    rfl
  | print =>
    obtain rfl : Command.print = command := Except.ok.inj h
    rfl
  | project =>
    obtain ⟨values, -, -, rfl⟩ := readArgument_project_eq_ok_iff.1 h
    rfl
  | select =>
    obtain ⟨condition, -, rfl⟩ := readArgument_select_eq_ok_iff.1 h
    rfl

/-- A stage can be read exactly if it starts with the letter of a verb that may stand there and the
rest is an argument of that verb. -/
theorem readStage_eq_ok_iff :
    readStage caps piped stage = .ok command ↔
      ∃ verb argument, stage = verb.letter :: argument ∧ (piped → verb.isPipeable) ∧
        readArgument caps verb argument = .ok command := by
  cases stage with
  | nil => simp [readStage]
  | cons letter argument =>
    rw [readStage, Sequence.bind_eq_ok_iff]
    constructor
    · rintro ⟨verb, hverb, h⟩
      obtain rfl := Verb.ofLetter_eq_ok_iff.1 hverb
      refine ⟨verb, argument, rfl, ?_⟩
      by_cases hpipe : (piped && !verb.isPipeable) = true
      · rw [if_pos hpipe] at h
        cases h
      · rw [if_neg hpipe] at h
        exact ⟨by simpa using hpipe, Sequence.mapError_eq_ok_iff.1 h⟩
    · rintro ⟨verb, argument', hstage, hpipe, h⟩
      obtain ⟨rfl, rfl⟩ := List.cons.inj hstage
      refine ⟨verb, Verb.ofLetter_eq_ok_iff.2 rfl, ?_⟩
      rw [if_neg (by simpa using hpipe)]
      exact Sequence.mapError_eq_ok_iff.2 h

/-- A stage of a line with pipes is a query. -/
theorem exists_query_of_readStage (h : readStage caps true stage = .ok command) :
    ∃ query, command = .query query := by
  obtain ⟨verb, argument, -, hpipe, hread⟩ := readStage_eq_ok_iff.1 h
  have hverb : command.verb.isPipeable = true := by
    rw [verb_of_readArgument hread]
    exact hpipe rfl
  cases command with
  | add fields => cases hverb
  | print => cases hverb
  | query query => exact ⟨query, rfl⟩

/-- A list of queries holds nothing but queries. -/
theorem exists_query_of_mem_map {queries : List Query} :
    ∀ c ∈ queries.map Command.query, ∃ query, c = .query query := by
  intro c hc
  obtain ⟨query, -, rfl⟩ := List.mem_map.1 hc
  exact ⟨query, rfl⟩

/-- Commands that are queries one by one are a list of queries. -/
theorem exists_queries (h : ∀ c ∈ commands, ∃ query, c = .query query) :
    ∃ queries : List Query, commands = queries.map .query := by
  induction commands with
  | nil => exact ⟨[], rfl⟩
  | cons c rest ih =>
    obtain ⟨⟨query, rfl⟩, hrest⟩ := List.forall_mem_cons.1 h
    obtain ⟨queries, rfl⟩ := ih hrest
    exact ⟨query :: queries, rfl⟩

/-! ### Lines -/

/-- The stages of a line are one more than its pipes. -/
theorem length_splitOn_pipe (line : List Char) : (line.splitOn pipe).length = pipesIn line + 1 := by
  induction line with
  | nil => rfl
  | cons c rest ih =>
    rw [List.splitOn_cons_eq_if_modifyHead, pipesIn, List.count_cons]
    split
    · rw [List.length_cons, ih]
      rfl
    · rw [List.length_modifyHead, ih]
      rfl

/-- A line that is not empty can be read exactly if each of its stages can. -/
theorem readLine_eq_ok_iff (hne : line ≠ []) :
    readLine caps line = .ok commands ↔
      (line.splitOn pipe).map (readStage caps (0 < pipesIn line)) = commands.map .ok := by
  rw [readLine, if_neg (by simpa using hne), Sequence.mapM_eq_ok_iff]

/-- A line without pipes is its only stage. -/
theorem readLine_of_pipe_not_mem (hne : line ≠ []) (hpipe : pipe ∉ line) :
    readLine caps line = (readStage caps false line).map fun command ↦ [command] := by
  have hpipes : pipesIn line = 0 := List.count_eq_zero.2 hpipe
  rw [readLine, if_neg (by simpa using hne), hpipes, List.splitOn_eq_singleton hpipe]
  show ([line].mapM (readStage caps false)) = _
  rw [List.mapM_cons, List.mapM_nil]
  rcases readStage caps false line with fault | command <;> rfl

/-- So it is read as a command exactly if the stage is. -/
theorem readLine_eq_singleton_iff (hne : line ≠ []) (hpipe : pipe ∉ line) :
    readLine caps line = .ok [command] ↔ readStage caps false line = .ok command := by
  rw [readLine_of_pipe_not_mem hne hpipe]
  rcases readStage caps false line with fault | other
  · exact iff_of_false nofun nofun
  · show Except.ok [other] = _ ↔ _
    simp

/-- A line that has commands is not empty, and each of its stages was read as one of them. -/
theorem map_readStage_of_readLine (h : readLine caps line = .ok commands) (hne : commands ≠ []) :
    (line.splitOn pipe).map (readStage caps (0 < pipesIn line)) = commands.map .ok := by
  have hline : line ≠ [] := by
    rintro rfl
    exact hne (Except.ok.inj h).symm
  exact (readLine_eq_ok_iff hline).1 h

/-- A line that has commands has one more of them than it has pipes. -/
theorem length_of_readLine (h : readLine caps line = .ok commands) (hne : commands ≠ []) :
    commands.length = pipesIn line + 1 := by
  have hlength := congrArg List.length (map_readStage_of_readLine h hne)
  rw [List.length_map, List.length_map] at hlength
  rw [← hlength, length_splitOn_pipe]

/-- A line that is read as a single command has no pipe. -/
theorem pipesIn_of_readLine_alone (h : readLine caps line = .ok [command]) : pipesIn line = 0 := by
  have hlength := length_of_readLine h (List.cons_ne_nil command [])
  rw [List.length_singleton] at hlength
  omega

/-- All commands of a line with pipes are queries. -/
theorem exists_query_of_readLine (hpipes : 0 < pipesIn line) (h : readLine caps line = .ok commands)
    (hmem : command ∈ commands) : ∃ query, command = .query query := by
  have hread : (.ok command : Except Fault Command) ∈
      (line.splitOn pipe).map (readStage caps (0 < pipesIn line)) :=
    map_readStage_of_readLine h (List.ne_nil_of_mem hmem) ▸ List.mem_map_of_mem hmem
  obtain ⟨stage, -, hstage⟩ := List.mem_map.1 hread
  rw [decide_eq_true hpipes] at hstage
  exact exists_query_of_readStage hstage

/-- All commands of a line but the first are queries. -/
theorem exists_query_of_mem_tail (h : readLine caps line = .ok commands) :
    ∀ command ∈ commands.tail, ∃ query, command = .query query := by
  intro command hmem
  -- where there is a second command there is a pipe
  have hlength := length_of_readLine h (List.ne_nil_of_mem (List.mem_of_mem_tail hmem))
  have htail : 0 < commands.tail.length := List.length_pos_of_mem hmem
  rw [List.length_tail] at htail
  exact exists_query_of_readLine (by omega) h (List.mem_of_mem_tail hmem)

/-- A line that can be read is empty, a single row to add, a single print, or queries. -/
theorem readLine_cases (h : readLine caps line = .ok commands) :
    commands = [] ∨ (∃ fields, commands = [.add fields]) ∨ commands = [.print] ∨
      ∃ queries : List Query, commands = queries.map .query := by
  cases commands with
  | nil => exact .inl rfl
  | cons c rest =>
    have hrest : ∃ queries : List Query, rest = queries.map .query :=
      exists_queries (exists_query_of_mem_tail h)
    have halone : (∀ query, c ≠ .query query) → rest = [] := by
      intro hc
      cases rest with
      | nil => rfl
      | cons other more =>
        -- with a further command there is a pipe, and then this one is a query
        have hlength := length_of_readLine h (List.cons_ne_nil c _)
        rw [List.length_cons, List.length_cons] at hlength
        obtain ⟨query, hquery⟩ := exists_query_of_readLine (by omega) h List.mem_cons_self
        exact absurd hquery (hc query)
    cases c with
    | add fields => exact .inr (.inl ⟨fields, by rw [halone fun _ ↦ Command.noConfusion]⟩)
    | print => exact .inr (.inr (.inl (by rw [halone fun _ ↦ Command.noConfusion])))
    | query query =>
      obtain ⟨queries, rfl⟩ := hrest
      exact .inr (.inr (.inr ⟨query :: queries, rfl⟩))

/-- A line is read as a row to add exactly if it is an `a`, no pipe comes after it, and every token
of what does come after it is a positive numeral. There has to be one. -/
theorem readLine_eq_add_iff {fields : IntegerList} :
    readLine caps line = .ok [.add fields] ↔
      ∃ argument values, line = 'a' :: argument ∧ '|' ∉ argument ∧ values ≠ [] ∧
        (Token.split (· == ',') argument).map Numeral.positive? = values.map some ∧
        fields = ⟨values.take caps.row, values.length⟩ := by
  constructor
  · intro h
    have hpipes : pipesIn line = 0 := pipesIn_of_readLine_alone h
    have hpipe : pipe ∉ line := List.count_eq_zero.1 hpipes
    have hline : line ≠ [] := by
      rintro rfl
      cases h
    have hstage : readStage caps false line = .ok (.add fields) :=
      (readLine_eq_singleton_iff hline hpipe).1 h
    obtain ⟨verb, argument, rfl, -, hread⟩ := readStage_eq_ok_iff.1 hstage
    obtain rfl : Verb.add = verb := verb_of_readArgument hread
    obtain ⟨values, hvalues, htokens, hfields⟩ := readArgument_add_eq_ok_iff.1 hread
    exact ⟨argument, values, rfl, fun hmem ↦ hpipe (List.mem_cons_of_mem _ hmem), hvalues, htokens,
      Command.add.inj hfields⟩
  · rintro ⟨argument, values, rfl, hpipe, hvalues, htokens, rfl⟩
    have hpipe : pipe ∉ 'a' :: argument := List.not_mem_cons_of_ne_of_not_mem (by decide) hpipe
    refine (readLine_eq_singleton_iff (List.cons_ne_nil _ _) hpipe).2 (readStage_eq_ok_iff.2 ?_)
    exact ⟨.add, argument, rfl, by simp,
      readArgument_add_eq_ok_iff.2 ⟨values, hvalues, htokens, rfl⟩⟩

end Command

end TableShell
