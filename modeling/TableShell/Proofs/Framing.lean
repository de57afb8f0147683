import TableShell.Proofs.Conversation
import TableShell.Proofs.Ending
import TableShell.Proofs.ReadBack
import TableShell.Proofs.Session
import TableShell.Proofs.Stripping

/-!
# Lines that stay apart

A run writes line after line into one text. Where a line ends can be told from the text alone if no
line has a line break in it, and if none is empty a line is not taken for the one that a prompt
stands on. Every line of a run is like that (`Framed`).

Most of what is shown is fixed text and numerals. The rest is quoted from the line that is answered,
and from there no line break can come: it is a blank, and blanks are removed before the line is read
(`Entry.isBlank_of_mem_strip`). The text of a row is not empty because only rows are shown that
have a first value.

How a display treats prompts, lines and faults is left open. So a run is given by what it offers to
a display in each of its rounds, which does not depend on the display (`Display.play`).
-/

namespace TableShell

/-! ### Texts without line breaks -/

/-- A line that can be told from its neighbours. -/
structure Framed (line : String) : Prop where
  ne_empty : line ≠ ""
  unbroken : '\n' ∉ line.toList

instance (line : String) : Decidable (Framed line) :=
  decidable_of_iff (line ≠ "" ∧ '\n' ∉ line.toList) ⟨fun h ↦ ⟨h.1, h.2⟩, fun h ↦ ⟨h.1, h.2⟩⟩

section Texts

variable {line more : String}

theorem unbroken_append (hline : '\n' ∉ line.toList) (hmore : '\n' ∉ more.toList) :
    '\n' ∉ (line ++ more).toList := by
  rw [String.toList_append, List.mem_append]
  exact not_or.2 ⟨hline, hmore⟩

/-- A line goes on as long as no line break comes. -/
theorem Framed.append (hline : Framed line) (hmore : '\n' ∉ more.toList) :
    Framed (line ++ more) := by
  refine ⟨fun hempty ↦ ?_, unbroken_append hline.unbroken hmore⟩
  have hnil := congrArg String.toList hempty
  rw [String.toList_append] at hnil
  exact hline.ne_empty (String.toList_inj.1 (List.append_eq_nil_iff.1 hnil).1)

theorem unbroken_repr (n : Nat) : '\n' ∉ n.repr.toList := fun h ↦
  absurd (Numeral.isDigit_of_mem_repr h) (by decide)

theorem unbroken_toString {c : Char} (hc : '\n' ∉ [c]) : '\n' ∉ c.toString.toList := by
  rw [Char.toString_eq_singleton, String.toList_singleton]
  exact hc

theorem Row.unbroken_text (row : Row) : '\n' ∉ row.text.toList := fun h ↦
  absurd (row.forall_mem_text '\n' h) (by decide)

end Texts

/-! ### Messages -/

/-- A message is framed if what it quotes has no line break in it. -/
theorem Fault.framed_message {fault : Fault} (h : '\n' ∉ fault.quoted) : Framed fault.message := by
  cases fault with
  | badArgument letter cause =>
    obtain ⟨hletter, hcause⟩ := not_or.1 (mt List.mem_cons.2 h)
    have hbad : '\n' ∉ cause.message.toList := by
      cases cause with
      | badToken token =>
        exact unbroken_append (unbroken_append (by decide +kernel) hcause) (by decide)
      | wrongCount count => exact unbroken_append (by decide +kernel) (unbroken_repr count)
      | noValues => decide +kernel
    have hverb := unbroken_toString (mt List.mem_singleton.1 hletter)
    exact ((Framed.append (by decide +kernel) hverb).append (by decide)).append hbad
  | noSuchColumn column =>
    exact (Framed.append (by decide +kernel) (unbroken_repr column)).append (by decide)
  | unknownLetter letter =>
    exact (Framed.append (by decide +kernel) (unbroken_toString h)).append (by decide)
  | unpipeable letter =>
    exact (Framed.append (by decide +kernel) (unbroken_toString h)).append (by decide +kernel)
  | blankStage =>
    show Framed "Empty pipeline stage"
    decide +kernel
  | missingInput =>
    show Framed "Pipeline stage has no input from a previous stage"
    decide +kernel
  | widthMismatch expected got =>
    rcases Nat.lt_or_ge got expected with hnarrow | hwide
    · rw [message_of_narrow hnarrow]
      exact (Framed.append (by decide +kernel) (unbroken_repr got)).append (by decide +kernel)
    · rw [message_of_wide hwide]
      exact (((Framed.append (by decide +kernel) (unbroken_repr got)).append (by decide)).append
        (unbroken_repr expected)).append (by decide +kernel)
  | noRoom limit => exact Framed.append (by decide +kernel) (unbroken_repr limit)
  | projectionCut requested kept =>
    exact (((Framed.append (by decide +kernel) (unbroken_repr kept)).append (by decide)).append
      (unbroken_repr requested)).append (by decide +kernel)
  | tooManyColumns got limit =>
    exact ((Framed.append (by decide +kernel) (unbroken_repr got)).append
      (by decide +kernel)).append (unbroken_repr limit)
  | io reason => exact Framed.append (by decide +kernel) h

/-- A row that cannot be added is a matter of numbers. -/
theorem Table.quoted_of_add {table : Table} {fields : IntegerList} {limit : Nat} {fault : Fault}
    (h : table.add fields limit = .error fault) : fault.quoted = [] := by
  rcases Sequence.bind_eq_error_iff.1 h with h | ⟨fitted, -, h⟩
  · unfold fit at h
    split at h
    · split at h <;> cases h
      rfl
    · split at h
      · cases h
        rfl
      · split at h <;> cases h
  · rcases Sequence.bind_eq_error_iff.1 h with h | ⟨grown, -, h⟩
    · unfold push at h
      split at h
      · cases h
        rfl
      · split at h
        · cases h
        · split at h <;> cases h
          rfl
    · cases h

namespace Shell

variable {limits : Limits} {shell : Shell} {line shown : String}

/-- The fault of a line quotes nothing but the line. -/
theorem quoted_of_attempt (hsound : Sound limits shell) {fault : Fault}
    (hfault : (shell.attempt line).fault = some fault) : fault.quoted ⊆ line.toList := by
  rcases fault_attempt_cases hsound hfault with htext | ⟨fields, -, hadd⟩ | ⟨c, rfl⟩
  · exact htext.quoted_subset
  · rw [Table.quoted_of_add hadd]
    exact List.nil_subset _
  · exact List.nil_subset _

/-! ### What is shown for a line -/

/-- Tables are shown in framed lines, and so is that a projection was cut. -/
theorem Displayed.framed (h : Displayed shown) : Framed shown := by
  rcases h with h | ⟨requested, kept⟩
  · rw [Table.lines] at h
    split at h
    · obtain ⟨row, -, hrow⟩ := List.mem_filterMap.1 h
      rw [Row.shown?] at hrow
      split at hrow
      · rename_i hshown
        obtain rfl := Option.some.inj hrow
        have hne : row ≠ [] := by
          rintro rfl
          cases hshown
        exact ⟨fun hempty ↦ Row.toList_text_ne_nil hne (congrArg String.toList hempty),
          row.unbroken_text⟩
      · cases hrow
    · obtain rfl := List.mem_singleton.1 h
      decide +kernel
  · exact Fault.framed_message List.not_mem_nil

/-- The lines that tell of an addition are framed. -/
theorem framed_of_mem_additionLines {addition : Table.Addition}
    (h : shown ∈ additionLines addition) : Framed shown := by
  rcases List.mem_append.1 h with h | h
  · split at h
    · obtain rfl := List.mem_singleton.1 h
      exact Fault.framed_message List.not_mem_nil
    · cases h
  · obtain rfl := List.mem_singleton.1 h
    exact Framed.append (by decide +kernel) addition.row.unbroken_text

/-- Up to its first fault, a line shows framed lines, whatever it is. -/
theorem framed_of_mem_attempt (h : shown ∈ (shell.attempt line).lines) : Framed shown := by
  by_cases hread : ∃ fields, Command.readLine shell.caps line.toList = .ok [.add fields]
  · obtain ⟨fields, hread⟩ := hread
    rw [attempt_of_add hread] at h
    rcases hadd : shell.table.add fields shell.limits.columns with fault | addition
    · rw [hadd] at h
      cases h
    · rw [hadd] at h
      exact framed_of_mem_additionLines h
  · exact (displayed_of_mem_attempt (fun fields hfields ↦ hread ⟨fields, hfields⟩) h).framed

/-- With the fault in it shown, a line without line breaks shows framed lines. -/
theorem framed_of_mem_answer (hsound : Sound limits shell) (hline : '\n' ∉ line.toList)
    (h : shown ∈ (shell.answer line).lines) : Framed shown := by
  rw [answer, Reply.report] at h
  rcases hfault : (shell.attempt line).fault with - | fault
  · rw [hfault] at h
    exact framed_of_mem_attempt h
  · rw [hfault] at h
    dsimp only at h
    split at h
    · exact framed_of_mem_attempt h
    · rcases List.mem_append.1 h with h | h
      · exact framed_of_mem_attempt h
      · obtain rfl := List.mem_singleton.1 h
        exact Fault.framed_message fun hquoted ↦ hline (quoted_of_attempt hsound hfault hquoted)

end Shell

/-! ### Entries -/

namespace Entry

/-- The entries of any input have no line breaks in them. -/
theorem unbroken_of_mem_readAll {limit : Nat} {input : List UInt8} {entry : Entry}
    (h : entry ∈ readAll limit input) : '\n' ∉ entry.text.toList := by
  obtain ⟨piece, -, rfl⟩ := List.mem_map.1 h
  exact fun hc ↦ absurd (isBlank_of_mem_strip hc) (by decide)

theorem framed_of_mem_notices {entry : Entry} {line : String} (h : line ∈ entry.notices) :
    Framed line := by
  rw [notices] at h
  split at h
  · obtain rfl := List.mem_singleton.1 h
    exact (Framed.append (by decide +kernel) (unbroken_repr _)).append (by decide +kernel)
  · cases h

end Entry

/-! ### What a run offers to a display -/

namespace Display

variable {σ : Type} [Display σ]

/-- The end of a run that has not ended with a fault: one more prompt, and the end of the line that
it stands on. -/
def conclude (prompt : Option (σ → Except String σ)) (display : σ) : σ × Option Fault :=
  match prompt with
  | none => (display, none)
  | some write =>
    match write display with
    | .error reason => (display, some (.io reason))
    | .ok display =>
      match put display "" with
      | .ok display => (display, none)
      | .error reason => (display, some (.io reason))

/-- What a display makes of a run that makes the given remarks, one list of them after each prompt,
and has the given ending. Whatever is refused is the end. -/
def play (prompt : Option (σ → Except String σ)) (ending : Option Fault) (display : σ) :
    List (List Remark) → σ × Option Fault
  | [] =>
    match ending with
    | some fault => (display, some fault)
    | none => conclude prompt display
  | remarks :: rest =>
    match Shell.ask prompt display with
    | .error reason => (display, some (.io reason))
    | .ok display =>
      match takeAll display remarks with
      | (display, none) => play prompt ending display rest
      | (display, some reason) => (display, some (.io reason))

theorem takeAll_map_line (display : σ) (lines : List String) :
    takeAll display (lines.map .line) = deliver display lines := by
  induction lines generalizing display with
  | nil => rfl
  | cons line rest ih =>
    rw [List.map_cons, takeAll, deliver, take]
    rcases put display line with reason | display
    · rfl
    · exact ih display

/-- Without prompts the rounds of a run do not show. -/
theorem play_none (ending : Option Fault) (display : σ) (rounds : List (List Remark)) :
    play none ending display rounds =
      ((takeAll display rounds.flatten).1,
        ((takeAll display rounds.flatten).2.map .io).or ending) := by
  induction rounds generalizing display with
  | nil => cases ending <;> rfl
  | cons remarks rest ih =>
    rw [play, Shell.ask, List.flatten_cons, takeAll_append]
    dsimp only
    rcases takeAll display remarks with ⟨display, - | reason⟩
    · exact ih display
    · rfl

end Display

namespace Shell

variable {limits : Limits} {shell : Shell}

/-- An entry comes to remarks that do not depend on the display. If one of them is refused, that is
the fault of the entry. -/
theorem exists_remarks (shell : Shell) (entry : Entry) :
    ∃ remarks : List Remark,
      remarks.map Remark.text = entry.notices ++ (shell.answer entry.text).lines ∧
      ∀ {σ : Type} [Display σ] (display shown : σ),
        (Display.takeAll display remarks = (shown, none) →
          shell.respondOn display entry =
            ⟨(shell.answer entry.text).shell, shown, (shell.answer entry.text).fault⟩) ∧
        ∀ reason, Display.takeAll display remarks = (shown, some reason) →
          ∃ next, shell.respondOn display entry = ⟨next, shown, some (.io reason)⟩ := by
  obtain ⟨remarks, htext, hrun⟩ := Performance.run_answer entry.text shell
  refine ⟨entry.notices.map .line ++ remarks, ?_, fun display shown ↦ ?_⟩
  · rw [List.map_append, Remark.map_text_line, htext]
  · rw [Display.takeAll_append, Display.takeAll_map_line, respondOn]
    rcases Display.deliver display entry.notices with ⟨noticed, - | reason⟩
    · have hanswer : shell.answerOn noticed entry.text = _ :=
        Performance.outcome_of_told (hrun noticed)
      rw [Performance.faultOf_endingOfLine] at hanswer
      dsimp only
      rw [hanswer]
      refine ⟨fun htake ↦ ?_, fun reason htake ↦ ⟨(shell.answer entry.text).shell, ?_⟩⟩
      · rw [htake]
        rfl
      · rw [htake]
        rfl
    · refine ⟨fun htaken ↦ ?_, fun reason' hrefused ↦ ⟨shell, ?_⟩⟩
      · cases (Prod.mk.inj htaken).2
      · obtain ⟨rfl, hreason⟩ := Prod.mk.inj hrefused
        obtain rfl := Option.some.inj hreason
        rfl

/-- Once the entries are over there is nothing but the conclusion. -/
theorem converseOn_nil_eq_conclude {σ : Type} [Display σ] (prompt : Option (σ → Except String σ))
    (shell : Shell) (display : σ) :
    ((shell.converseOn prompt display []).display, (shell.converseOn prompt display []).fault) =
      Display.conclude prompt display := by
  rw [converseOn]
  rcases prompt with - | write
  · rfl
  · rw [Display.conclude, ask]
    rcases write display with reason | asked
    · rfl
    · show (((Performance.emit "").outcome shell asked).display,
        ((Performance.emit "").outcome shell asked).fault) = _
      rw [Performance.outcome, Performance.emit, Performance.run_offer]
      dsimp only
      rcases Display.put asked "" with reason | ended <;> rfl

/-- A run on entries without line breaks makes framed remarks. What they are does not depend on the
display, nor on the prompt. -/
theorem exists_rounds (hsound : Sound limits shell) {entries : List Entry}
    (hentries : ∀ entry ∈ entries, '\n' ∉ entry.text.toList) :
    ∃ (rounds : List (List Remark)) (ending : Option Fault),
      (∀ remarks ∈ rounds, ∀ remark ∈ remarks, Framed remark.text) ∧
      ∀ {σ : Type} [Display σ] (prompt : Option (σ → Except String σ)) (display : σ),
        ((shell.converseOn prompt display entries).display,
          (shell.converseOn prompt display entries).fault) =
            Display.play prompt ending display rounds := by
  induction entries generalizing shell with
  | nil => exact ⟨[], none, nofun, fun prompt ↦ converseOn_nil_eq_conclude prompt shell⟩
  | cons entry rest ih =>
    obtain ⟨hentry, hrest⟩ := List.forall_mem_cons.1 hentries
    obtain ⟨remarks, htext, hrespond⟩ := shell.exists_remarks entry
    have hframed : ∀ remark ∈ remarks, Framed remark.text := by
      intro remark hremark
      have hmem := List.mem_map_of_mem (f := Remark.text) hremark
      rw [htext] at hmem
      rcases List.mem_append.1 hmem with h | h
      · exact Entry.framed_of_mem_notices h
      · exact framed_of_mem_answer hsound hentry h
    have hnext : Sound limits (shell.answer entry.text).shell :=
      hsound.transition (transition_reply shell (.answer entry.text))
    generalize shell.answer entry.text = reply at hrespond hnext
    obtain ⟨next, lines, fault⟩ := reply
    -- what follows the entry, if the display takes all that is shown for it
    obtain ⟨rounds, ending, hrounds, hplay⟩ :
        ∃ (rounds : List (List Remark)) (ending : Option Fault),
        (∀ remarks ∈ rounds, ∀ remark ∈ remarks, Framed remark.text) ∧
        ∀ {σ : Type} [Display σ] (prompt : Option (σ → Except String σ)) (display : σ),
          let later : Outcome σ := match fault with
            | none => next.converseOn prompt display rest
            | some fault => ⟨next, display, some fault⟩
          (later.display, later.fault) = Display.play prompt ending display rounds := by
      rcases fault with - | fault
      · exact ih hnext hrest
      · exact ⟨[], some fault, nofun, fun _ _ ↦ rfl⟩
    refine ⟨remarks :: rounds, ending, List.forall_mem_cons.2 ⟨hframed, hrounds⟩,
      fun prompt display ↦ ?_⟩
    rw [converseOn, Display.play]
    rcases ask prompt display with reason | asked
    · rfl
    · dsimp only
      rcases htake : Display.takeAll asked remarks with ⟨shown, - | reason⟩
      · rw [(hrespond asked shown).1 htake]
        refine Eq.trans ?_ (hplay prompt shown)
        rcases fault with - | fault <;> rfl
      · obtain ⟨refused, hrefused⟩ := (hrespond asked shown).2 reason htake
        rw [hrefused]

end Shell

/-! ### Lines and text -/

namespace Transcript

/-- A transcript is its lines, each with a line break behind it. -/
theorem toList_text_foldl (lines : List String) :
    (lines.foldl writeLine empty).text.toList =
      lines.flatMap fun line ↦ line.toList ++ ['\n'] := by
  have hbreak : "\n".toList = ['\n'] := rfl
  rw [foldl_writeLine, write, empty, String.empty_append, String.toList_join, List.flatMap_map]
  simp only [String.toList_append, hbreak]

/-- Lines without line breaks are found again in the text. -/
theorem splitOn_flatMap {lines : List String} (h : ∀ line ∈ lines, '\n' ∉ line.toList) :
    (lines.flatMap fun line ↦ line.toList ++ ['\n']).splitOn '\n' =
      lines.map String.toList ++ [[]] := by
  induction lines with
  | nil => rfl
  | cons line rest ih =>
    obtain ⟨hline, hrest⟩ := List.forall_mem_cons.1 h
    rw [List.flatMap_cons, List.append_assoc, List.singleton_append,
      List.splitOn_append_cons_self_of_not_mem hline, ih hrest]
    rfl

theorem splitOn_text {lines : List String} (h : ∀ line ∈ lines, '\n' ∉ line.toList) :
    ((lines.foldl writeLine empty).text.toList.splitOn '\n').map String.ofList = lines ++ [""] := by
  have hagain : (lines.map String.toList).map String.ofList = lines := by simp
  rw [toList_text_foldl, splitOn_flatMap h, List.map_append, hagain]
  rfl

end Transcript

namespace Shell

/-- What a run shows is framed. The same remarks are made on every display until something is
refused, with a prompt before each round of them and one more if they do not end with a fault. So
without prompts the text of a run, divided at its line breaks, is made of the lines of the run, with
nothing behind the last of them. -/
theorem output_framed (limits : Limits) (input : List UInt8) :
    ∃ (rounds : List (List Remark)) (ending : Option Fault),
      (∀ remarks ∈ rounds, ∀ remark ∈ remarks, Framed remark.text) ∧
      (∀ {σ : Type} [Display σ] (prompt : Option (σ → Except String σ)) (display : σ),
        ∃ outcome : Outcome σ,
          (∀ other, Converses prompt ⟨input, limits.lineLength⟩ (start limits, display) other ↔
            other = outcome) ∧
          (outcome.display, outcome.fault) = Display.play prompt ending display rounds) ∧
      ∃ (log : Outcome LineLog) (written : Outcome Transcript),
        Converses none ⟨input, limits.lineLength⟩ (start limits, LineLog.empty) log ∧
        Converses none ⟨input, limits.lineLength⟩ (start limits, Transcript.empty) written ∧
        log.display.lines.toList = rounds.flatten.map Remark.text ∧
        (written.display.text.toList.splitOn '\n').map String.ofList =
          log.display.lines.toList ++ [""] := by
  have hentries : ∀ entry ∈ Entry.readAll limits.lineLength input, '\n' ∉ entry.text.toList :=
    fun _ ↦ Entry.unbroken_of_mem_readAll
  obtain ⟨rounds, ending, hframed, hplay⟩ := exists_rounds (Sound.start limits) hentries
  have hlines : ∀ line ∈ rounds.flatten.map Remark.text, '\n' ∉ line.toList := by
    intro line hline
    obtain ⟨remark, hremark, rfl⟩ := List.mem_map.1 hline
    obtain ⟨remarks, hround, hmem⟩ := List.mem_flatten.1 hremark
    exact (hframed remarks hround remark hmem).unbroken
  -- without prompts all that is left of the rounds are their remarks
  have hquiet : ∀ {σ : Type} [PlainDisplay σ] (display : σ),
      ((start limits).converseOn none display (Entry.readAll limits.lineLength input)).display =
        (Display.deliver display (rounds.flatten.map Remark.text)).1 := by
    intro σ _ display
    rw [← Display.takeAll_eq_deliver]
    exact congrArg Prod.fst ((hplay none display).trans (Display.play_none ..))
  have hlog : ((start limits).converseOn none LineLog.empty
      (Entry.readAll limits.lineLength input)).display.lines.toList =
        rounds.flatten.map Remark.text := by
    rw [hquiet, Display.lines_deliver_empty]
  refine ⟨rounds, ending, hframed, fun prompt display ↦ ⟨_, fun other ↦ converses_iff .., ?_⟩, _, _,
    (converses_iff ..).2 rfl, (converses_iff ..).2 rfl, hlog, ?_⟩
  · exact hplay prompt display
  · rw [hlog, hquiet, Display.deliver_transcript, Transcript.splitOn_text hlines]

end Shell

end TableShell
