import HouseLedger.Proofs.Command.Endings

/-!
# Where statements are written

The path of a statement's file is made of the name of an account, which is free text. Whatever
the name is, the path goes on from that of the output directory and stays in it
(`Invocation.leadsDown_pathOf`).

* `Plan.exists_of_write_mem`: a plan writes to such paths alone, and it makes the directory first.
* `Invocation.confined`: since steps change no file but those that they write, no run changes a
  file outside of its output directory.
-/

namespace HouseLedger

open Outcome

theorem mem_of_mem_intersperse {α : Type} {separator x : α} {xs : List α}
    (h : x ∈ xs.intersperse separator) : x = separator ∨ x ∈ xs := by
  induction xs with
  | nil => exact .inr h
  | cons y xs ih =>
    cases xs with
    | nil => exact .inr h
    | cons z zs =>
      rw [List.intersperse_cons_cons] at h
      rcases List.mem_cons.mp h with rfl | h
      · exact .inr List.mem_cons_self
      · rcases List.mem_cons.mp h with rfl | h
        · exact .inl rfl
        · exact (ih h).imp_right (List.mem_cons_of_mem y)

namespace Command

/-! ## Plans -/

/-- A statement of the ledger in the bytes, with its text. -/
def Invocation.Renders (i : Invocation) (bytes : ByteArray) (s : Statement) (text : String) :
    Prop :=
  ∃ l b acronym, Ledger.ofFile i.options bytes = .ok l ∧ l.balance = .ok b ∧
    Statement.ofAcronym l b acronym = .ok s ∧ Report.statement s l.accounts i.currency = .ok text

theorem exists_part_of_mem_untilFault {parts : List (Except Fault (List Step))} {step : Step}
    (h : step ∈ (untilFault parts).1) : ∃ steps, .ok steps ∈ parts ∧ step ∈ steps := by
  induction parts with
  | nil => exact absurd h List.not_mem_nil
  | cons part parts ih =>
    cases part with
    | error fault => exact absurd h List.not_mem_nil
    | ok steps =>
      rcases List.mem_append.mp h with h | h
      · exact ⟨steps, List.mem_cons_self, h⟩
      · obtain ⟨steps', hpart, hstep⟩ := ih h
        exact ⟨steps', List.mem_cons_of_mem _ hpart, hstep⟩

namespace Plan

variable {i : Invocation} {l : Ledger} {b : Balance} {bytes : ByteArray} {path : Path}
  {text : String}

theorem exists_of_write_mem_writeParts {statements : List Statement}
    (h : Step.write path text ∈
      (untilFault (writeParts l i.currency i.directory statements)).1) :
    ∃ s ∈ statements, Report.statement s l.accounts i.currency = .ok text ∧ path = i.pathOf s := by
  obtain ⟨steps, hpart, hstep⟩ := exists_part_of_mem_untilFault h
  rcases List.mem_cons.mp hpart with heq | hpart
  · rw [Except.ok.inj heq] at hstep
    exact absurd hstep (by simp)
  · obtain ⟨s, hs, hpart⟩ := List.mem_map.mp hpart
    obtain ⟨text', htext, rfl⟩ := writePart_eq_ok hpart
    rw [Invocation.statementSteps, List.mem_cons] at hstep
    rcases hstep with heq | hstep
    · obtain ⟨hpath, htext'⟩ := Step.write.inj heq
      exact ⟨s, hs, htext' ▸ htext, hpath⟩
    · exact absurd hstep (by simp)

/-- A part that prints a report writes no file. -/
theorem write_notMem_of_map_print {report : Except Fault String} {steps : List Step}
    (h : .ok steps = report.map fun text => [Step.print text]) : Step.write path text ∉ steps := by
  cases report with
  | error fault => cases h
  | ok shown =>
    cases h
    simp

theorem write_notMem_overviewParts :
    Step.write path text ∉ (untilFault (overviewParts l b i.currency)).1 := by
  intro h
  obtain ⟨steps, hpart, hstep⟩ := exists_part_of_mem_untilFault h
  exact write_notMem_of_map_print (List.mem_singleton.mp hpart) hstep

theorem write_notMem_printParts {statements : List Statement} :
    Step.write path text ∉ (untilFault (printParts l i.currency statements)).1 := by
  intro h
  obtain ⟨steps, hpart, hstep⟩ := exists_part_of_mem_untilFault h
  rcases mem_of_mem_intersperse hpart with heq | hpart
  · rw [Except.ok.inj heq] at hstep
    exact absurd hstep (by simp)
  · obtain ⟨s, -, hpart⟩ := List.mem_map.mp hpart
    exact write_notMem_of_map_print hpart.symm hstep

/-- Only the task to write statements writes, once it has the statements of all acronyms. -/
theorem exists_of_write_mem_ofTask {events : List Event}
    (h : Step.write path text ∈ (ofTask i l b events).steps) :
    ∃ (acronyms : List String) (statements : List Statement),
      acronyms.mapM (Statement.ofAcronym l b) = .ok statements ∧
      (ofTask i l b events).steps =
        (untilFault (writeParts l i.currency i.directory statements)).1 := by
  cases htask : i.task with
  | overview =>
    rw [ofTask, htask] at h
    exact absurd h write_notMem_overviewParts
  | printStatements acronyms =>
    rw [ofTask, htask] at h
    cases hstatements : acronyms.mapM (Statement.ofAcronym l b) with
    | error fault =>
      simp only [hstatements] at h
      exact absurd h List.not_mem_nil
    | ok statements =>
      simp only [hstatements] at h
      exact absurd h write_notMem_printParts
  | writeStatements acronyms =>
    rw [ofTask, htask] at h ⊢
    cases hstatements : acronyms.mapM (Statement.ofAcronym l b) with
    | error fault =>
      simp only [hstatements] at h
      exact absurd h List.not_mem_nil
    | ok statements =>
      refine ⟨acronyms, statements, hstatements, ?_⟩
      simp only [hstatements]
      rfl

/-- A plan writes statements of the ledger, each to its own path, behind a step that makes the
output directory. -/
theorem exists_of_write_mem (h : Step.write path text ∈ (ofBytes i bytes).steps) :
    (∃ s, i.Renders bytes s text ∧ path = i.pathOf s) ∧
      ∃ rest, (ofBytes i bytes).steps = .ensureDirectory i.directory :: rest := by
  cases hl : Ledger.ofFile i.options bytes with
  | error fault =>
    rw [(ofBytes_of_error hl).1] at h
    exact absurd h List.not_mem_nil
  | ok l =>
    cases hb : l.balance with
    | error fault =>
      rw [(ofBytes_of_noBalance hl hb).1] at h
      exact absurd h List.not_mem_nil
    | ok b =>
      obtain ⟨events, hplan⟩ := ofBytes_of_ok hl hb
      rw [hplan] at h ⊢
      obtain ⟨acronyms, statements, hstatements, hsteps⟩ := exists_of_write_mem_ofTask h
      rw [hsteps] at h ⊢
      obtain ⟨s, hs, htext, hpath⟩ := exists_of_write_mem_writeParts h
      obtain ⟨acronym, -, hacronym⟩ := mapM_eq_ok hstatements s hs
      exact ⟨⟨s, ⟨l, b, acronym, hl, hb, hacronym, htext⟩, hpath⟩, _, rfl⟩

end Plan

/-! ## Runs -/

theorem tree_conclude {log printed : String} {t : Tree} {found : Option Fault} :
    (conclude log t printed found).tree = t := by
  unfold conclude
  split
  · rfl
  · split
    · rfl
    · rfl

/-- The file at the place is as it was in `t`, or it is a statement of the ledger and stands in the
output directory, under the names of the statement's path. -/
def Invocation.Confines (i : Invocation) (t t' : Tree) (place : Place) : Prop :=
  (t'.look place).bytes? = (t.look place).bytes? ∨
    ∃ source s text base, t.read i.ledger = .ok source ∧ i.Renders source s text ∧
      t'.look place = .file (t.contents text) ∧ t'.locate i.directory.toString = .ok base ∧
      place = base ++ Report.fileNames s

theorem Accepts.confines {t : Tree} {env : Environment} {arguments : List String} {i : Invocation}
    (h : Accepts t env arguments i) (place : Place) :
    i.Confines t (run t env arguments).tree place := by
  rw [h.run_eq, runPlan, tree_conclude]
  cases hsource : t.read i.ledger with
  | error fault => exact .inl rfl
  | ok source =>
    rw [Plan.ofFile]
    rcases same_or_wrote_of_perform t "" (Plan.ofBytes i source).steps place with
      hsame | ⟨step, hmem, path, text, rfl, hlocate, hfile⟩
    · exact .inl hsame
    · rw [← (perform_grows t "" _).contents_eq] at hfile
      obtain ⟨⟨s, hs, hpath⟩, rest, hsteps⟩ := Plan.exists_of_write_mem hmem
      rw [hpath] at hlocate
      rw [hsteps] at hlocate hfile ⊢
      rcases Step.succeeds_or_fails t (.ensureDirectory i.directory) with
        ⟨t₁, shown, hstep⟩ | ⟨t₁, fault, hstep⟩
      · rw [hstep.perform] at hlocate hfile ⊢
        obtain ⟨hmake, -⟩ := hstep.of_ensureDirectory
        obtain ⟨base, hbase⟩ := (Tree.made_of_ensureDirectory hmake).leads
        have hbase' := (perform_grows t₁ ("" ++ shown) rest).locate hbase
        exact .inr ⟨source, s, text, base, hsource, hs, hfile, hbase',
          Tree.place_of_leadsDown i.normal_directory (i.leadsDown_pathOf s) hbase' hlocate⟩
      · -- Without its directory the run writes nothing.
        rw [hstep.perform]
        cases hstep
        exact .inl rfl

/-- Whatever the name of an account and the date are, the path of a statement's file goes on from
the output directory, does not begin anew and does not lead upwards, and ends in a name with the
extension. So a run leaves all files as they are but for those that are in this directory and hold
statements. -/
theorem Invocation.confined (i : Invocation) :
    (∀ s : Statement, i.directory.LeadsDown (Report.fileNames s) (i.pathOf s) ∧
      ∃ folders stem, Path.pieces (Report.plainTitle s) = folders ++ [stem] ∧
        Report.fileNames s = folders.filter (· ≠ "") ++ [stem ++ ".txt"]) ∧
    ∀ t env arguments, (Request.ofArguments? env arguments).bind Request.invocation? = some i →
      ∀ place, i.Confines t (run t env arguments).tree place := by
  refine ⟨fun s => ⟨i.leadsDown_pathOf s, Report.exists_fileNames_eq s⟩,
    fun t env arguments hasked place => ?_⟩
  rcases exists_accepts_or_refused t env arguments with ⟨i', haccepts⟩ | hrefused | ⟨-, htree⟩
  · obtain rfl := Option.some_inj.mp (haccepts.asked.symm.trans hasked)
    exact haccepts.confines place
  · rw [hrefused]
    exact .inl rfl
  · rw [htree]
    exact .inl rfl

/-- A ledger with an account whose name climbs. -/
def climbingText : String :=
  "accounting_date 1.2.2024\naccount AA ../../etc/./a.b/\n"

/-- The ledger in a file, next to a directory with folders in it. -/
def climbingTree : Tree :=
  .ofFiles [] [("l.ledger", climbingText.toUTF8),
    ("out/Statement 1_2_2024 __/__/etc/_/a_b/old.txt", "".toUTF8)]

/-- A run that writes the statement into the directory. -/
def climbingRun : Invocation :=
  ⟨⟨false, {}, "CHF", some "out"⟩, "l.ledger", .writeStatements ["AA"]⟩

/-- The statement does not leave the directory, but it is not a file of it either. -/
theorem Invocation.confined_climbing :
    ∃ source s text, climbingTree.read "l.ledger" = .ok source ∧
      climbingRun.Renders source s text ∧
      (run climbingTree [] ["statement", "l.ledger", "AA", "--output-dir", "out"]).tree.look
        ["out", "Statement 1_2_2024 __", "__", "etc", "_", "a_b", ".txt"] = .file text.toUTF8 := by
  have hasked : (Request.ofArguments? []
      ["statement", "l.ledger", "AA", "--output-dir", "out"]).bind Request.invocation? =
        some climbingRun := by decide +kernel
  have hchanged : ((run climbingTree []
      ["statement", "l.ledger", "AA", "--output-dir", "out"]).tree.look
        ["out", "Statement 1_2_2024 __", "__", "etc", "_", "a_b", ".txt"]).bytes?.isSome ≠
      (climbingTree.look
        ["out", "Statement 1_2_2024 __", "__", "etc", "_", "a_b", ".txt"]).bytes?.isSome := by
    decide +kernel
  rcases climbingRun.confined.2 climbingTree [] _ hasked
      ["out", "Statement 1_2_2024 __", "__", "etc", "_", "a_b", ".txt"] with
    hsame | ⟨source, s, text, base, hsource, hs, hfile, -, -⟩
  · exact absurd (congrArg Option.isSome hsame) hchanged
  · have hencodes : climbingTree.encodesText text = true := List.all_eq_true.mpr fun _ _ => rfl
    rw [Tree.contents_of_encodesText hencodes] at hfile
    exact ⟨source, s, text, hsource, hs, hfile⟩

end Command

end HouseLedger
