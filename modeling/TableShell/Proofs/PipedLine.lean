import Mathlib.Data.List.Forall2
import TableShell.Proofs.Tokens

/-!
# Lines and their stages

A line with pipes against the lines that its stages are by themselves. Two things are different for
a stage among others. It may not be empty, where an empty line is one without commands; and it may
neither add nor print. A stage of which neither is true is read as it is read alone
(`readStage_piped_eq`). So a line is read exactly if each of its stages is a projection or a
selection that can be read alone, and otherwise the first stage that is not decides how it fails:
what comes after that stage is not looked at (`readLine_exact`).
-/

namespace TableShell

namespace Command

variable {caps : Caps} {line stage argument : List Char} {stages : List (List Char)}
  {command : Command} {commands : List Command}

/-! ### Stages -/

/-- A stage that can stand among others: it projects or selects, and read as a line it is this
command. -/
def ReadsAlone (caps : Caps) (stage : List Char) (command : Command) : Prop :=
  (stage.head? = some 'p' ∨ stage.head? = some 's') ∧ readLine caps stage = .ok [command]

/-- A line of several stages is read stage by stage. -/
theorem readLine_intercalate (hlength : 2 ≤ stages.length) (hpipe : ∀ s ∈ stages, pipe ∉ s) :
    readLine caps ([pipe].intercalate stages) = stages.mapM (readStage caps true) := by
  have hne : stages ≠ [] := by
    rintro rfl
    exact absurd hlength (by decide)
  have hsplit : ([pipe].intercalate stages).splitOn pipe = stages :=
    List.splitOn_intercalate pipe hpipe hne
  have hpipes : 0 < pipesIn ([pipe].intercalate stages) := by
    have hcount := length_splitOn_pipe ([pipe].intercalate stages)
    rw [hsplit] at hcount
    omega
  have hline : [pipe].intercalate stages ≠ [] := by
    intro hnil
    rw [hnil] at hpipes
    exact absurd hpipes (by decide)
  rw [readLine, if_neg (by simpa using hline), hsplit, decide_eq_true hpipes]

/-- With a letter that is neither that of an addition nor that of a print, a stage is read among
others as it is read alone. -/
theorem readStage_piped_eq {letter : Char} (hadd : letter ≠ 'a') (hprint : letter ≠ '?') :
    readStage caps true (letter :: argument) = readStage caps false (letter :: argument) := by
  rw [readStage, readStage]
  rcases hverb : Verb.ofLetter letter with fault | verb
  · rfl
  · obtain rfl := Verb.ofLetter_eq_ok_iff.1 hverb
    rcases verb
    · exact absurd rfl hadd
    · exact absurd rfl hprint
    · rfl
    · rfl

/-- A stage can be read among others exactly if it can stand among others and be read alone. -/
theorem readStage_piped_eq_ok_iff (hpipe : pipe ∉ stage) :
    readStage caps true stage = .ok command ↔ ReadsAlone caps stage command := by
  constructor
  · intro h
    obtain ⟨verb, argument, rfl, hpipeable, hread⟩ := readStage_eq_ok_iff.1 h
    have hstage : readStage caps false (verb.letter :: argument) = .ok command :=
      readStage_eq_ok_iff.2 ⟨verb, argument, rfl, Bool.noConfusion, hread⟩
    refine ⟨?_, (readLine_eq_singleton_iff (List.cons_ne_nil _ _) hpipe).2 hstage⟩
    -- the verbs that may be piped are those with the letters `p` and `s`
    rcases verb
    · exact absurd (hpipeable rfl) Bool.false_ne_true
    · exact absurd (hpipeable rfl) Bool.false_ne_true
    · exact .inl rfl
    · exact .inr rfl
  · rintro ⟨hhead, hread⟩
    rcases stage with - | ⟨letter, argument⟩
    · rcases hhead with hhead | hhead <;> cases hhead
    · have hletter : letter = 'p' ∨ letter = 's' := hhead.imp Option.some.inj Option.some.inj
      rw [readStage_piped_eq (by rcases hletter with rfl | rfl <;> decide)
        (by rcases hletter with rfl | rfl <;> decide)]
      exact (readLine_eq_singleton_iff (List.cons_ne_nil _ _) hpipe).1 hread

/-- Several stages are read exactly if each of them can stand among others and be read alone. -/
theorem map_readStage_piped_eq_iff (hpipe : ∀ s ∈ stages, pipe ∉ s) :
    stages.map (readStage caps true) = commands.map .ok ↔
      List.Forall₂ (ReadsAlone caps) stages commands := by
  induction stages generalizing commands with
  | nil =>
    rcases commands with - | ⟨command, commands⟩
    · exact iff_of_true rfl .nil
    · exact ⟨nofun, nofun⟩
  | cons stage rest ih =>
    obtain ⟨hstage, hrest⟩ := List.forall_mem_cons.1 hpipe
    rcases commands with - | ⟨command, commands⟩
    · exact ⟨nofun, nofun⟩
    · rw [List.map_cons, List.map_cons, List.cons.injEq, List.forall₂_cons, ih hrest,
        readStage_piped_eq_ok_iff hstage]

/-! ### The first stage that cannot be read -/

/-- A line fails as its first stage does that cannot stand there or cannot be read. -/
theorem readLine_eq_error {before after : List (List Char)} {fault : Fault}
    (hlength : 2 ≤ (before ++ stage :: after).length)
    (hpipe : ∀ s ∈ before ++ stage :: after, pipe ∉ s)
    (hbefore : ∀ s ∈ before, ∃ command, ReadsAlone caps s command)
    (hfault : readStage caps true stage = .error fault) :
    readLine caps ([pipe].intercalate (before ++ stage :: after)) = .error fault := by
  rw [readLine_intercalate hlength hpipe]
  refine Sequence.mapM_eq_error_iff.2 ⟨before, stage, after, rfl, fun s hs ↦ ?_, hfault⟩
  obtain ⟨command, hcommand⟩ := hbefore s hs
  have hpipe : pipe ∉ s := hpipe s (List.mem_append_left _ hs)
  exact ⟨command, (readStage_piped_eq_ok_iff hpipe).2 hcommand⟩

/-- A stage that is neither blank nor an addition nor a print has among others the fault that it has
alone. -/
theorem exists_fault_alone {letter : Char} (hadd : letter ≠ 'a') (hprint : letter ≠ '?')
    (hpipe : pipe ∉ letter :: argument)
    (h : ¬ ∃ command, ReadsAlone caps (letter :: argument) command) :
    ∃ fault, readLine caps (letter :: argument) = .error fault ∧
      readStage caps true (letter :: argument) = .error fault := by
  rcases hread : readStage caps true (letter :: argument) with fault | command
  · refine ⟨fault, ?_, rfl⟩
    rw [readLine_of_pipe_not_mem (List.cons_ne_nil _ _) hpipe, ← readStage_piped_eq hadd hprint,
      hread]
    rfl
  · exact absurd ⟨command, (readStage_piped_eq_ok_iff hpipe).1 hread⟩ h

/-! ### Targets -/

/-- The columns of a projection on a line are the first numbers that its stage writes. -/
theorem exists_targets_of_readLine (h : readLine caps line = .ok commands) {i requested : Nat}
    {columns : List Nat} (hi : commands[i]? = some (.query (.project columns requested))) :
    ∃ argument tokens targets, (line.splitOn '|')[i]? = some ('p' :: argument) ∧
      Token.Pieces (· = ',') argument tokens ∧
      List.Forall₂ (fun token (target : Nat) ↦ Numeral.Denotes token target) tokens targets ∧
      1 ≤ requested ∧ requested = targets.length ∧
      columns = targets.take (min requested caps.projection) ∧ ∀ c ∈ columns, 1 ≤ c := by
  have hmem := List.mem_of_getElem? hi
  have hstages := congrArg (·[i]?) (map_readStage_of_readLine h (List.ne_nil_of_mem hmem))
  rw [List.getElem?_map, List.getElem?_map, hi] at hstages
  obtain ⟨stage, hstage, hread⟩ := Option.map_eq_some_iff.1 hstages
  obtain ⟨verb, argument, rfl, -, hread⟩ := readStage_eq_ok_iff.1 hread
  obtain rfl : Verb.project = verb := verb_of_readArgument hread
  obtain ⟨values, hne, hvalues, hcommand⟩ := readArgument_project_eq_ok_iff.1 hread
  obtain ⟨rfl, rfl⟩ := Query.project.inj (Command.query.inj hcommand)
  have hpos : ∀ n ∈ values, 0 < n := (Numeral.map_positive?_eq_iff.1 hvalues).2
  have htargets : List.Forall₂ (fun token (target : Nat) ↦ Numeral.Denotes token target)
      (Token.split (· == ',') argument) (values.map Int.toNat) := by
    refine List.forall₂_map_right_iff.2 ?_
    refine (Token.values_eq_ok_iff_denotes.1 (Token.values_eq_ok_iff.2 hvalues)).imp ?_
    intro token n hn
    rwa [Int.toNat_of_nonneg hn.nonneg]
  refine ⟨argument, _, _, hstage, (Token.pieces_iff fun c ↦ beq_iff_eq).2 rfl, htargets,
    List.length_pos_iff.2 hne, (List.length_map _).symm, ?_, fun c hc ↦ ?_⟩
  · rw [Nat.min_comm, ← List.take_take, ← List.length_map Int.toNat, List.take_length,
      List.map_take]
  · obtain ⟨n, hn, rfl⟩ := List.mem_map.1 hc
    have := hpos n (List.mem_of_mem_take hn)
    omega

/-! ### Lines -/

/-- A line of several stages is read as commands exactly if each of its stages can stand among
others and is read alone as its command. Otherwise the first stage for which this is not so gives
the line its fault, whatever follows: a blank stage, a letter that may not stand there, or the fault
that it has alone. A line of one stage is read as one command, or has a fault. And wherever a
projection stands on a line, it keeps the first of its targets, of which there is at least one, as
many as there may be, and each of them is at least one. -/
theorem readLine_exact (caps : Caps) :
    (∀ stages : List (List Char), 2 ≤ stages.length → (∀ stage ∈ stages, '|' ∉ stage) →
      (∀ commands, readLine caps (['|'].intercalate stages) = .ok commands ↔
        List.Forall₂ (ReadsAlone caps) stages commands) ∧
      ∀ before stage after, stages = before ++ stage :: after →
        (∀ s ∈ before, ∃ command, ReadsAlone caps s command) →
        (¬ ∃ command, ReadsAlone caps stage command) →
        (stage = [] → readLine caps (['|'].intercalate stages) = .error .blankStage) ∧
        ∀ letter argument, stage = letter :: argument →
          (letter = 'a' ∨ letter = '?' →
            readLine caps (['|'].intercalate stages) = .error (.unpipeable letter)) ∧
          (letter ≠ 'a' ∧ letter ≠ '?' → ∃ fault, readLine caps stage = .error fault ∧
            readLine caps (['|'].intercalate stages) = .error fault)) ∧
    (∀ line, line ≠ [] → '|' ∉ line →
      (∃ command, readLine caps line = .ok [command]) ∨
        ∃ fault, readLine caps line = .error fault) ∧
    ∀ line (commands : List Command), readLine caps line = .ok commands →
      ∀ (i : Nat) columns requested, commands[i]? = some (.query (.project columns requested)) →
      ∃ argument tokens targets, (line.splitOn '|')[i]? = some ('p' :: argument) ∧
        Token.Pieces (· = ',') argument tokens ∧
        List.Forall₂ (fun token (target : Nat) ↦ Numeral.Denotes token target) tokens targets ∧
        1 ≤ requested ∧ requested = targets.length ∧
        columns = targets.take (min requested caps.projection) ∧ ∀ c ∈ columns, 1 ≤ c := by
  refine ⟨fun stages hlength hpipe ↦ ?_, fun line hne hpipe ↦ ?_,
    fun line commands h i columns requested ↦ exists_targets_of_readLine h⟩
  · refine ⟨fun commands ↦ ?_, ?_⟩
    · rw [← map_readStage_piped_eq_iff hpipe, ← Sequence.mapM_eq_ok_iff,
        ← readLine_intercalate hlength hpipe]
      rfl
    · rintro before stage after rfl hbefore hstage
      have hfault : ∀ fault, readStage caps true stage = .error fault →
          readLine caps (['|'].intercalate (before ++ stage :: after)) = .error fault :=
        fun _ ↦ readLine_eq_error hlength hpipe hbefore
      refine ⟨?_, ?_⟩
      · rintro rfl
        exact hfault _ rfl
      · rintro letter argument rfl
        refine ⟨?_, fun ⟨hadd, hprint⟩ ↦ ?_⟩
        · rintro (rfl | rfl)
          · exact hfault _ rfl
          · exact hfault _ rfl
        · obtain ⟨fault, halone, hpiped⟩ := exists_fault_alone hadd hprint
            (hpipe _ List.mem_append_cons_self) hstage
          exact ⟨fault, halone, hfault fault hpiped⟩
  · rw [readLine_of_pipe_not_mem hne hpipe]
    rcases readStage caps false line with fault | command
    · exact .inr ⟨fault, rfl⟩
    · exact .inl ⟨command, rfl⟩

/-- Three stages, the first of which names more columns than are kept; a stage that is unknown
before one that is blank; and an addition among others, of which the argument is not looked at. -/
theorem readLine_exact_three_stages :
    let caps : Caps := ⟨5, 2⟩
    readLine caps "p3,1,1|s2>1|p2".toList =
        .ok [.query (.project [3, 1] 3), .query (.select ⟨2, .greater, 1⟩),
          .query (.project [2] 1)] ∧
      readLine caps "p1|q2||a1".toList = .error (.unknownLetter 'q') ∧
      readLine caps "p1|ax|p0".toList = .error (.unpipeable 'a') ∧
      ∃ tokens targets, Token.Pieces (· = ',') "3,1,1".toList tokens ∧
        List.Forall₂ (fun token (target : Nat) ↦ Numeral.Denotes token target) tokens targets ∧
        3 = targets.length ∧ [3, 1] = targets.take 2 := by
  intro caps
  have hgood : readLine caps "p3,1,1|s2>1|p2".toList =
      .ok [.query (.project [3, 1] 3), .query (.select ⟨2, .greater, 1⟩),
        .query (.project [2] 1)] := by
    refine (((readLine_exact caps).1 ["p3,1,1".toList, "s2>1".toList, "p2".toList] (by decide)
      (by decide)).1 _).2 ?_
    exact .cons ⟨by decide, rfl⟩ (.cons ⟨by decide, rfl⟩ (.cons ⟨by decide, rfl⟩ .nil))
  have hfirst : ∃ command, ReadsAlone caps "p1".toList command :=
    ⟨.query (.project [1] 1), by decide, rfl⟩
  refine ⟨hgood, ?_, ?_, ?_⟩
  · have hq : ¬ ∃ command, ReadsAlone caps "q2".toList command := fun ⟨_, hhead, _⟩ ↦
      absurd hhead (by decide)
    have hline := (((readLine_exact caps).1 ["p1".toList, "q2".toList, [], "a1".toList] (by decide)
      (by decide)).2 ["p1".toList] "q2".toList [[], "a1".toList] rfl
        (List.forall_mem_singleton.2 hfirst) hq).2 'q' ['2'] rfl
    obtain ⟨fault, halone, hfault⟩ := hline.2 ⟨by decide, by decide⟩
    obtain rfl : Fault.unknownLetter 'q' = fault := Except.error.inj halone
    exact hfault
  · have ha : ¬ ∃ command, ReadsAlone caps "ax".toList command := fun ⟨_, hhead, _⟩ ↦
      absurd hhead (by decide)
    have hline := (((readLine_exact caps).1 ["p1".toList, "ax".toList, "p0".toList] (by decide)
      (by decide)).2 ["p1".toList] "ax".toList ["p0".toList] rfl
        (List.forall_mem_singleton.2 hfirst) ha).2 'a' ['x'] rfl
    exact hline.1 (.inl rfl)
  · obtain ⟨argument, tokens, targets, hstage, htokens, htargets, -, hlength, hkept, -⟩ :=
      (readLine_exact caps).2.2 _ _ hgood 0 [3, 1] 3 rfl
    obtain rfl : "3,1,1".toList = argument := (List.cons.inj (Option.some.inj hstage)).2
    exact ⟨tokens, targets, htokens, htargets, hlength, hkept⟩

end Command

end TableShell
