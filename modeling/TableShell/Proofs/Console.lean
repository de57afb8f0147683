import Mathlib.Data.Nat.Find
import TableShell.Console
import TableShell.Proofs.Conversation
import TableShell.Proofs.Ending
import TableShell.Proofs.Session

/-!
# Whole runs

What a run writes and how it exits, for any input (`Console.run_exact`). The output is that of the
entries, one after the other, with a prompt before each of them. It ends with the first entry that
ends the run, which gives the exit code one, or else with a last prompt.

Which entry that is can be told from the input alone: the first one that writes a row too wide to
fix the width, with no entry before it that was accepted (`Shell.EndsAt`). Before that entry no
width is fixed, for only lines that are accepted fix one (`Shell.width_before_eq_none_iff`).
-/

namespace TableShell

/-! ### Entries in order -/

namespace Shell

variable {limits : Limits} {shell : Shell} {line : String}

/-- The shell in which an entry is answered if all entries before it have been. -/
def before (shell : Shell) (entries : List Entry) (n : Nat) : Shell :=
  shell.after ((entries.take n).map fun entry ↦ .answer entry.text)

theorem before_succ {entries : List Entry} {n : Nat} {entry : Entry}
    (h : entries[n]? = some entry) :
    shell.before entries (n + 1) = ((shell.before entries n).answer entry.text).shell := by
  rw [before, List.take_add_one, h, Option.toList_some, List.map_append, after_append]
  rfl

/-- An accepted line fixes the width, and no other line does. -/
theorem width_answer_eq_none_iff (hsound : Sound limits shell) (line : String) :
    (shell.answer line).shell.table.width = none ↔
      shell.table.width = none ∧ ∀ values, ¬ shell.Accepts line values := by
  rw [answer, Reply.shell_report]
  by_cases hnot : ∀ values, ¬ shell.Accepts line values
  · rw [(attempt_of_not_accepts hsound hnot).1]
    exact (and_iff_left hnot).symm
  · obtain ⟨values, haccepts⟩ := not_forall_not.1 hnot
    rw [attempt_of_accepts hsound haccepts, acceptance]
    refine iff_of_false ?_ fun h ↦ hnot h.2
    split <;> exact Option.some_ne_none _

theorem Reachable.before (h : Reachable limits shell) (entries : List Entry) (n : Nat) :
    Reachable limits (shell.before entries n) :=
  h.after _

/-- No entry before the given one was accepted, each in the shell that it was answered in. -/
def NoneAccepted (shell : Shell) (entries : List Entry) (n : Nat) : Prop :=
  ∀ m < n, ∀ earlier, entries[m]? = some earlier →
    ∀ values, ¬ (shell.before entries m).Accepts earlier.text values

/-- No width is fixed before an entry exactly if none of the entries before it was accepted. -/
theorem width_before_eq_none_iff (h : Reachable limits shell) (hopen : shell.table.width = none)
    {entries : List Entry} {n : Nat} (hn : n ≤ entries.length) :
    (shell.before entries n).table.width = none ↔ shell.NoneAccepted entries n := by
  induction n with
  | zero => exact iff_of_true hopen nofun
  | succ n ih =>
    have hentry : entries[n]? = some entries[n] := List.getElem?_eq_getElem hn
    rw [before_succ hentry, width_answer_eq_none_iff (h.before entries n).sound,
      ih (Nat.le_of_succ_le hn), NoneAccepted, NoneAccepted, Nat.forall_lt_succ_right]
    refine and_congr_right fun _ ↦ ⟨fun hnot earlier hearlier ↦ ?_, fun hnot ↦ hnot _ hentry⟩
    obtain rfl := Option.some.inj (hentry.symm.trans hearlier)
    exact hnot

/-- While no width is fixed, the lines that are accepted are those that a new shell accepts. -/
theorem accepts_iff_of_open (hsound : Sound limits shell) (hopen : shell.table.width = none)
    {values : List Int} : shell.Accepts line values ↔ (start limits).Accepts line values := by
  have hsize : shell.size = 0 := by
    rcases Nat.eq_zero_or_pos shell.size with hzero | hpos
    · exact hzero
    · have hstarted := hsound.isStarted_iff.2 hpos
      rw [isStarted, hopen] at hstarted
      cases hstarted
  constructor
  · rintro ⟨hreads, hne, hpos, hroom, hfits⟩
    rw [hsize, hsound.limits_eq] at hroom
    rw [hopen, hsound.limits_eq] at hfits
    exact ⟨hreads, hne, hpos, hroom, hfits⟩
  · rintro ⟨hreads, hne, hpos, hroom, hfits⟩
    refine ⟨hreads, hne, hpos, ?_, ?_⟩
    · rw [hsize, hsound.limits_eq]
      exact hroom
    · rw [hopen, hsound.limits_eq]
      exact hfits

/-- An entry comes to the given fault when it is its turn. -/
def FaultsAt (shell : Shell) (entries : List Entry) (n : Nat) (fault : Fault) : Prop :=
  ∃ entry, entries[n]? = some entry ∧
    ((shell.before entries n).answer entry.text).fault = some fault

theorem faultsAt_cons_zero {entry : Entry} {rest : List Entry} {fault : Fault} :
    shell.FaultsAt (entry :: rest) 0 fault ↔ (shell.answer entry.text).fault = some fault := by
  constructor
  · rintro ⟨first, hfirst, hfault⟩
    obtain rfl := Option.some.inj hfirst
    exact hfault
  · exact fun hfault ↦ ⟨entry, rfl, hfault⟩

theorem fault_eq_none_of_not_faultsAt {entry : Entry} {rest : List Entry}
    (h : ∀ fault, ¬ shell.FaultsAt (entry :: rest) 0 fault) :
    (shell.answer entry.text).fault = none :=
  Option.eq_none_iff_forall_ne_some.2 fun fault hfault ↦ h fault (faultsAt_cons_zero.2 hfault)

theorem faultsAt_cons_succ {entry : Entry} {rest : List Entry} {n : Nat} {fault : Fault} :
    shell.FaultsAt (entry :: rest) (n + 1) fault ↔
      (shell.answer entry.text).shell.FaultsAt rest n fault :=
  Iff.rfl

/-- An entry writes a row that is too wide to fix the width, and no entry before it was accepted. -/
def EndsAt (limits : Limits) (entries : List Entry) (n : Nat) : Prop :=
  (∃ entry, entries[n]? = some entry ∧
    ∃ values, Writes entry.text values ∧ limits.columns < values.length) ∧
  (start limits).NoneAccepted entries n

/-- These are the entries that come to a fault. -/
theorem exists_faultsAt_iff {entries : List Entry} {n : Nat} :
    (∃ fault, (start limits).FaultsAt entries n fault) ↔ EndsAt limits entries n := by
  have hreached : Reachable limits (start limits) := .refl
  have hfault := fun line fault ↦
    @fault_answer_eq_some_iff limits ((start limits).before entries n) line fault
      (hreached.before entries n).sound
  constructor
  · rintro ⟨fault, entry, hentry, hended⟩
    obtain ⟨hopen, values, hwrites, hwide, -⟩ := (hfault _ _).1 hended
    have hn : n < entries.length := (List.getElem?_eq_some_iff.1 hentry).1
    exact ⟨⟨entry, hentry, values, hwrites, hwide⟩,
      (width_before_eq_none_iff hreached rfl (Nat.le_of_lt hn)).1 hopen⟩
  · rintro ⟨⟨entry, hentry, values, hwrites, hwide⟩, hnone⟩
    have hn : n < entries.length := (List.getElem?_eq_some_iff.1 hentry).1
    have hopen := (width_before_eq_none_iff hreached rfl (Nat.le_of_lt hn)).2 hnone
    exact ⟨_, entry, hentry, (hfault _ _).2 ⟨hopen, values, hwrites, hwide, rfl⟩⟩

/-- None of some entries was accepted exactly if a new shell accepts none of them. -/
theorem noneAccepted_iff {entries : List Entry} {n : Nat} (hn : n ≤ entries.length) :
    (start limits).NoneAccepted entries n ↔
      ∀ m < n, ∀ earlier, entries[m]? = some earlier →
        ∀ values, ¬ (start limits).Accepts earlier.text values := by
  have hreached : Reachable limits (start limits) := .refl
  induction n with
  | zero => exact iff_of_true nofun nofun
  | succ n ih =>
    have hle : n ≤ entries.length := Nat.le_of_succ_le hn
    rw [NoneAccepted, Nat.forall_lt_succ_right, Nat.forall_lt_succ_right]
    refine Iff.trans (and_congr_right fun hnone ↦ ?_) (and_congr_left fun _ ↦ ih hle)
    have hopen := (width_before_eq_none_iff hreached rfl hle).2 hnone
    have haccepts := fun line values ↦
      @accepts_iff_of_open limits ((start limits).before entries n) line
        (hreached.before entries n).sound hopen values
    exact forall₂_congr fun _ _ ↦ forall_congr' fun values ↦ not_congr (haccepts _ values)

/-- Whether an entry ends a run can be told from the input alone. -/
theorem endsAt_iff {entries : List Entry} {n : Nat} :
    EndsAt limits entries n ↔
      (∃ entry, entries[n]? = some entry ∧
        ∃ values, Writes entry.text values ∧ limits.columns < values.length) ∧
      ∀ m < n, ∀ earlier, entries[m]? = some earlier →
        ∀ values, ¬ (start limits).Accepts earlier.text values := by
  refine and_congr_right fun ⟨entry, hentry, _⟩ ↦ ?_
  exact noneAccepted_iff (Nat.le_of_lt (List.getElem?_eq_some_iff.1 hentry).1)

end Shell

/-! ### What is written -/

namespace Console

/-- The prompts of a run, if there are any. -/
def asking (quiet : Bool) : Option (Transcript → Except String Transcript) :=
  if quiet then none else some fun transcript ↦ .ok (transcript.write "> ")

/-- What is written for an entry: that it was cut, if it was, and then all that is shown when it is
answered. -/
def output (shell : Shell) (entry : Entry) : String :=
  String.join ((entry.notices ++
    (shell.answerOn LineLog.empty entry.text).display.lines.toList).map (· ++ "\n"))

/-- What is written for each of some entries, if all of them are answered. -/
def outputs (shell : Shell) : List Entry → List String
  | [] => []
  | entry :: rest =>
    output shell entry :: outputs (shell.answerOn LineLog.empty entry.text).shell rest

variable {limits : Limits} {shell : Shell}

theorem ask_asking (quiet : Bool) (transcript : Transcript) :
    Shell.ask (asking quiet) transcript = .ok (transcript.write (prompt quiet)) := by
  cases quiet with
  | false => rfl
  | true => exact congrArg Except.ok transcript.write_empty.symm

theorem respondOn_eq (shell : Shell) (transcript : Transcript) (entry : Entry) :
    shell.respondOn transcript entry =
      ⟨(shell.answer entry.text).shell, transcript.write (output shell entry),
        (shell.answer entry.text).fault⟩ := by
  have hlines : (shell.answerOn LineLog.empty entry.text).display.lines.toList =
      (shell.answer entry.text).lines := by
    rw [Shell.answerOn_eq_deliver, Reply.deliver]
    exact Display.lines_deliver_empty _
  rw [Shell.respondOn_eq_deliver, Reply.deliver_accepting, output, hlines,
    ← Transcript.foldl_writeLine]
  rfl

/-- One entry of a run: a prompt, the output of the entry, and then the others, unless it ends with
a fault. -/
theorem converseOn_cons (quiet : Bool) (shell : Shell) (transcript : Transcript) (entry : Entry)
    (rest : List Entry) :
    shell.converseOn (asking quiet) transcript (entry :: rest) =
      let written := transcript.write (prompt quiet ++ output shell entry)
      match (shell.answer entry.text).fault with
      | none => (shell.answer entry.text).shell.converseOn (asking quiet) written rest
      | some fault => ⟨(shell.answer entry.text).shell, written, some fault⟩ := by
  rw [Shell.converseOn, ask_asking]
  dsimp only
  rw [respondOn_eq, Transcript.write_write]
  rcases (shell.answer entry.text).fault with - | fault <;> rfl

theorem converseOn_nil (quiet : Bool) (shell : Shell) (transcript : Transcript) :
    shell.converseOn (asking quiet) transcript [] =
      ⟨shell, transcript.write (prompt quiet ++ farewell quiet), none⟩ := by
  rw [Shell.converseOn, ask_asking, ← Transcript.write_write]
  cases quiet with
  | false =>
    show (⟨shell, (transcript.write (prompt false)).writeLine "", none⟩ : Outcome Transcript) = _
    rw [Transcript.writeLine, Transcript.write_empty]
    rfl
  | true =>
    show (⟨shell, transcript.write (prompt true), none⟩ : Outcome Transcript) = _
    rw [farewell, if_pos rfl, Transcript.write_empty]

theorem outputs_cons (shell : Shell) (entry : Entry) (rest : List Entry) :
    outputs shell (entry :: rest) =
      output shell entry :: outputs (shell.answer entry.text).shell rest := by
  rw [outputs, Shell.shell_answerOn]

/-- If no entry comes to a fault, all of them are answered, and there is a last prompt. -/
theorem converseOn_of_no_fault {entries : List Entry}
    (h : ∀ n fault, ¬ shell.FaultsAt entries n fault) (quiet : Bool) (transcript : Transcript) :
    ∃ last, shell.converseOn (asking quiet) transcript entries =
      ⟨last, transcript.write (String.join ((outputs shell entries).map (prompt quiet ++ ·)) ++
        (prompt quiet ++ farewell quiet)), none⟩ := by
  induction entries generalizing shell transcript with
  | nil =>
    refine ⟨shell, ?_⟩
    rw [converseOn_nil, outputs, List.map_nil, String.join_nil, String.empty_append]
  | cons entry rest ih =>
    have hrest : ∀ n fault, ¬ (shell.answer entry.text).shell.FaultsAt rest n fault :=
      fun n fault hlater ↦ h (n + 1) fault (Shell.faultsAt_cons_succ.2 hlater)
    obtain ⟨last, hlast⟩ := ih hrest (transcript.write (prompt quiet ++ output shell entry))
    refine ⟨last, ?_⟩
    rw [converseOn_cons, Shell.fault_eq_none_of_not_faultsAt (h 0)]
    dsimp only
    rw [hlast, Transcript.write_write, outputs_cons, List.map_cons, String.join_cons]
    exact congrArg (fun text ↦ Outcome.mk last (transcript.write text) none)
      (String.append_assoc ..).symm

/-- The first entry that comes to a fault is the last one that is answered. -/
theorem converseOn_of_fault {entries : List Entry} {n : Nat} {fault : Fault}
    (h : shell.FaultsAt entries n fault)
    (hfirst : ∀ m < n, ∀ other, ¬ shell.FaultsAt entries m other) (quiet : Bool)
    (transcript : Transcript) :
    ∃ last, shell.converseOn (asking quiet) transcript entries =
      ⟨last, transcript.write
        (String.join (((outputs shell entries).take (n + 1)).map (prompt quiet ++ ·))),
        some fault⟩ := by
  induction entries generalizing shell transcript n with
  | nil =>
    obtain ⟨entry, hentry, -⟩ := h
    cases hentry
  | cons entry rest ih =>
    rw [converseOn_cons, outputs_cons, List.take_succ_cons, List.map_cons, String.join_cons]
    rcases n with - | n
    · rw [Shell.faultsAt_cons_zero.1 h, List.take_zero, List.map_nil, String.join_nil,
        String.append_empty]
      exact ⟨_, rfl⟩
    · have hlater : ∀ m < n, ∀ other, ¬ (shell.answer entry.text).shell.FaultsAt rest m other :=
        fun m hm other hother ↦
          hfirst (m + 1) (Nat.succ_lt_succ hm) other (Shell.faultsAt_cons_succ.2 hother)
      obtain ⟨last, hlast⟩ := ih (Shell.faultsAt_cons_succ.1 h) hlater
        (transcript.write (prompt quiet ++ output shell entry))
      refine ⟨last, ?_⟩
      rw [Shell.fault_eq_none_of_not_faultsAt (hfirst 0 n.succ_pos)]
      dsimp only
      rw [hlast, Transcript.write_write]

/-! ### The program -/

/-- To deliver the reply to the bytes of a line is to respond to the entry that they come to. -/
theorem deliver_respond (shell : Shell) (piece : List UInt8) (transcript : Transcript) :
    (respond shell piece).deliver transcript =
      shell.respondOn transcript (Entry.ofBytes shell.limits.lineLength piece) := by
  generalize hentry : Entry.ofBytes shell.limits.lineLength piece = entry
  have hreply : respond shell piece = (shell.answer entry.text).after entry.notices := by
    rw [respond, hentry]
    rfl
  rw [hreply, Shell.respondOn_eq_deliver]

/-- To answer the lines of some input is to answer its entries, as long as the limits stay. -/
theorem converse_eq_converseOn (hsound : Shell.Sound limits shell) (quiet : Bool)
    (transcript : Transcript) (pieces : List (List UInt8)) :
    converse quiet shell transcript pieces = shell.converseOn (asking quiet) transcript
      (pieces.map (Entry.ofBytes limits.lineLength)) := by
  induction pieces generalizing shell transcript with
  | nil => rw [List.map_nil, converseOn_nil, converse]
  | cons piece rest ih =>
    have hnext := hsound.transition
      (Shell.transition_reply shell (.answer (Entry.ofBytes limits.lineLength piece).text))
    rw [List.map_cons, Shell.converseOn, ask_asking, converse, deliver_respond, hsound.limits_eq]
    dsimp only
    rw [respondOn_eq]
    rcases (shell.answer (Entry.ofBytes limits.lineLength piece).text).fault with - | fault
    · exact ih hnext _
    · rfl

/-- What the program does with some input, read from the standard input or from a script. Of the
arguments only the options that they are read as matter. -/
theorem run_of_read {read : List String → Except UsageError Options} {arguments : List String}
    {script : Option String} {quiet : Bool} {openScript : String → Except String Feed}
    {input standardInput : List UInt8} (hread : read arguments = .ok ⟨script, quiet, limits⟩)
    (hfeed : match script with
      | none => standardInput = input
      | some path => openScript path = .ok (.contents input)) :
    run read arguments openScript standardInput =
      exitOf ((Shell.start limits).converseOn (asking quiet) Transcript.empty
        (Entry.readAll limits.lineLength input)) := by
  have hserve : serve quiet (Shell.start limits) (.contents input) =
      (Shell.start limits).converseOn (asking quiet) Transcript.empty
        (Entry.readAll limits.lineLength input) :=
    converse_eq_converseOn (.start limits) quiet _ _
  rw [run, hread, ← hserve]
  dsimp only
  rw [runWith]
  rcases script with - | path
  · rw [← hfeed]
  · dsimp only at hfeed ⊢
    rw [hfeed]

section Endings

variable {entries : List Entry}

/-- A run ends early with the first entry that ends a run. -/
theorem converseOn_of_endsAt {n : Nat} (h : Shell.EndsAt limits entries n)
    (hfirst : ∀ m < n, ¬ Shell.EndsAt limits entries m) (quiet : Bool) :
    ∃ last fault, (Shell.start limits).converseOn (asking quiet) Transcript.empty entries =
      ⟨last, Transcript.empty.write (String.join
        (((outputs (Shell.start limits) entries).take (n + 1)).map (prompt quiet ++ ·))),
        some fault⟩ := by
  obtain ⟨fault, hfault⟩ := Shell.exists_faultsAt_iff.2 h
  have hbefore : ∀ m < n, ∀ other, ¬ (Shell.start limits).FaultsAt entries m other :=
    fun m hm other hother ↦ hfirst m hm (Shell.exists_faultsAt_iff.1 ⟨other, hother⟩)
  obtain ⟨last, hlast⟩ := converseOn_of_fault hfault hbefore quiet Transcript.empty
  exact ⟨last, fault, hlast⟩

/-- Without such an entry it ends with the last one. -/
theorem converseOn_of_not_endsAt (h : ¬ ∃ n, Shell.EndsAt limits entries n) (quiet : Bool) :
    ∃ last, (Shell.start limits).converseOn (asking quiet) Transcript.empty entries =
      ⟨last, Transcript.empty.write (String.join
        ((outputs (Shell.start limits) entries).map (prompt quiet ++ ·)) ++
          (prompt quiet ++ farewell quiet)), none⟩ :=
  converseOn_of_no_fault
    (fun n fault hfault ↦ h ⟨n, Shell.exists_faultsAt_iff.1 ⟨fault, hfault⟩⟩) quiet Transcript.empty

end Endings

/-- A run of the program on the given input. It comes to its end in one way only, and neither how
the arguments are read nor whether the input is read from a script makes a difference. The exit code
is one exactly if some entry writes a row that is too wide to fix the width, with no entry before it
that was accepted, and that can be told from the input alone. Such an entry is the last one to be
answered. Without one all entries are answered, and nothing is reported. The output is what is
written for these entries, with a prompt before each of them, and at the end of the input there is
one prompt more. -/
theorem run_exact (quiet : Bool) (limits : Limits) (input : List UInt8) :
    let entries := Entry.readAll limits.lineLength input
    let mark := if quiet then "" else "> "
    ∃ outcome : Outcome Transcript,
      (∀ other, Converses (asking quiet) ⟨input, limits.lineLength⟩
        (Shell.start limits, Transcript.empty) other ↔ other = outcome) ∧
      (∀ read arguments openScript, read arguments = .ok ⟨none, quiet, limits⟩ →
        run read arguments openScript input = exitOf outcome) ∧
      (∀ read arguments openScript path standardInput,
        read arguments = .ok ⟨some path, quiet, limits⟩ →
        openScript path = .ok (.contents input) →
        run read arguments openScript standardInput = exitOf outcome) ∧
      ((exitOf outcome).code = 1 ↔ ∃ n, Shell.EndsAt limits entries n) ∧
      (∀ n, Shell.EndsAt limits entries n ↔
        (∃ entry, entries[n]? = some entry ∧
          ∃ values, Shell.Writes entry.text values ∧ limits.columns < values.length) ∧
        ∀ m < n, ∀ earlier, entries[m]? = some earlier →
          ∀ values, ¬ (Shell.start limits).Accepts earlier.text values) ∧
      (∀ n, Shell.EndsAt limits entries n → (∀ m < n, ¬ Shell.EndsAt limits entries m) →
        (exitOf outcome).output =
          String.join (((outputs (Shell.start limits) entries).take (n + 1)).map (mark ++ ·))) ∧
      ((¬ ∃ n, Shell.EndsAt limits entries n) →
        exitOf outcome =
          ⟨0, String.join ((outputs (Shell.start limits) entries).map (mark ++ ·)) ++
            (if quiet then "" else "> \n"), ""⟩) := by
  intro entries mark
  have hfarewell : (if quiet then "" else "> \n") = prompt quiet ++ farewell quiet := by
    cases quiet <;> rfl
  refine ⟨_, fun other ↦ converses_iff ..,
    fun read arguments openScript hread ↦ run_of_read hread rfl,
    fun read arguments openScript path standardInput hread hopen ↦ run_of_read hread hopen,
    ⟨fun hcode ↦ ?_, fun hends ↦ ?_⟩, fun n ↦ Shell.endsAt_iff, fun n hends hfirst ↦ ?_,
    fun hnone ↦ ?_⟩
  · by_contra hnone
    obtain ⟨last, hlast⟩ := converseOn_of_not_endsAt hnone quiet
    rw [hlast] at hcode
    cases hcode
  · classical
    obtain ⟨last, fault, hlast⟩ :=
      converseOn_of_endsAt (Nat.find_spec hends) (fun m ↦ Nat.find_min hends) quiet
    rw [hlast]
    rfl
  · obtain ⟨last, fault, hlast⟩ := converseOn_of_endsAt hends hfirst quiet
    rw [hlast]
    exact String.empty_append
  · obtain ⟨last, hlast⟩ := converseOn_of_not_endsAt hnone quiet
    rw [hlast, hfarewell]
    exact congrArg (Exit.mk 0 · "") String.empty_append

/-- A byte that is no character, a print, a row of three values, and a print that is not reached:
the same from the standard input and from a script, where two columns are allowed. -/
theorem run_exact_wide_row :
    let input : List UInt8 :=
      [0xFF, 0x0A, 0x3F, 0x0A, 0x61, 0x31, 0x2C, 0x32, 0x20, 0x2C, 0x33, 0x0A, 0x3F]
    let openScript : String → Except String Feed := fun _ ↦ .ok (.contents input)
    run Options.read ["--max-cols=2"] openScript input =
        ⟨1, "> Unknown command '\uFFFD'\n> Empty data.\n> ",
          "Input was 3 columns - must be at most 2\n"⟩ ∧
      run Options.read ["--max-cols=2", "script"] openScript [] =
        run Options.read ["--max-cols=2"] openScript input ∧
      ∃ n, Shell.EndsAt ⟨2, 1000, 100, 1000⟩ (Entry.readAll 1000 input) n := by
  intro input openScript
  obtain ⟨outcome, -, hstandard, hscript, hcode, -⟩ := run_exact false ⟨2, 1000, 100, 1000⟩ input
  have hrun := hstandard Options.read ["--max-cols=2"] openScript (by decide +kernel)
  have hexit : run Options.read ["--max-cols=2"] openScript input =
      ⟨1, "> Unknown command '\uFFFD'\n> Empty data.\n> ",
        "Input was 3 columns - must be at most 2\n"⟩ := by
    decide +kernel
  refine ⟨hexit, ?_, hcode.1 ?_⟩
  · rw [hrun]
    exact hscript Options.read _ _ "script" [] (by decide +kernel) rfl
  · rw [← hrun, hexit]

end Console

end TableShell
