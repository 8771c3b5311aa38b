import HouseLedger.Proofs.Command.Steps
import HouseLedger.Proofs.Ledger.WellFormed

/-!
# The files of statements

A run that ends well has performed a plan without a fault (`Command.exists_plan_of_exitCode`).
If it writes statements, the plan is to make the directory, and then to write the statements one
after the other, each with a line that tells its path (`Plan.steps_of_writeStatements`).

The path of a statement is made of the name of its account (`Invocation.pathOf_eq_iff`), and only
acronyms are unique. So two statements may go to one file, and then the later one is what stays
(`Command.run_statements`): every account has its own statement in the end if and only if
statements that share a file read the same.
-/

namespace HouseLedger

open Outcome

/-- The last element of a list that is taken to a value. -/
theorem exists_last {α β : Type} {g : α → β} {b : β} {xs : List α} (h : ∃ x ∈ xs, g x = b) :
    ∃ before y after, xs = before ++ y :: after ∧ g y = b ∧ ∀ z ∈ after, g z ≠ b := by
  induction xs with
  | nil =>
    obtain ⟨x, hx, -⟩ := h
    exact absurd hx List.not_mem_nil
  | cons w xs ih =>
    by_cases hlater : ∃ x ∈ xs, g x = b
    · obtain ⟨before, y, after, rfl, hy, hafter⟩ := ih hlater
      exact ⟨w :: before, y, after, rfl, hy, hafter⟩
    · obtain ⟨x, hx, hb⟩ := h
      rcases List.mem_cons.mp hx with rfl | hx
      · exact ⟨[], x, xs, rfl, hb, fun z hz heq => hlater ⟨z, hz, heq⟩⟩
      · exact absurd ⟨x, hx, hb⟩ hlater

/-- The statement of an acronym is that of the account that has it. -/
theorem Statement.acronym_of_ofAcronym {l : Ledger} {b : Balance} {acronym : String}
    {s : Statement} (h : ofAcronym l b acronym = .ok s) : s.account.acronym = acronym := by
  unfold ofAcronym at h
  obtain ⟨index, hindex, h⟩ := bind_eq_ok.mp h
  obtain ⟨account, haccount, h⟩ := bind_eq_ok.mp h
  obtain ⟨debts, -, h⟩ := bind_eq_ok.mp h
  cases h
  obtain ⟨found, hfound, hacronym⟩ :=
    Registry.getElem?_of_find? (Registry.resolve_eq_ok_iff.mp hindex)
  rw [ok_unique haccount (Registry.get_of_getElem? hfound)]
  exact hacronym

namespace Command

variable {t t' : Tree} {printed : String}

/-! ## Statements on their way to files -/

namespace Invocation

variable (i : Invocation)

/-- The path of the file that a statement is written to. -/
def pathOf (s : Statement) : Path := i.directory.join (Path.ofString (Report.fileName s))

/-- The line that tells where a statement has been written. -/
def written (s : Statement) : String :=
  s!"Wrote statement for {s.account.acronym} to {(i.pathOf s).toString}\n"

/-- The steps that write a statement, given its text. -/
def statementSteps (s : Statement) (text : String) : List Step :=
  [.write (i.pathOf s) text, .print (i.written s)]

/-- The file of a statement, given its text. -/
def fileOf (s : Statement) (text : String) : String × ByteArray :=
  ((i.pathOf s).toString, text.toUTF8)

/-- The file that a statement is written to holds it and nothing else. -/
def Holds (t : Tree) (l : Ledger) (s : Statement) : Prop :=
  ∃ text, Report.statement s l.accounts i.currency = .ok text ∧
    t.nodeAt (i.pathOf s).toString = .file text.toUTF8

theorem normal_directory : i.directory.Normal := by
  unfold directory
  split
  · exact (Path.normal_ofString _).parent
  · exact (Path.normal_ofString _).parent
  · exact Path.normal_ofString _

/-- Statements of one date, without slashes in the names of their files, share a path exactly if
the names of their accounts are the same but for points and underscores. -/
theorem pathOf_eq_iff {s s' : Statement} (hdate : s.referenceDate = s'.referenceDate)
    (h : '/' ∉ (Report.fileName s).toList) (h' : '/' ∉ (Report.fileName s').toList) :
    i.pathOf s = i.pathOf s' ↔
      (s.account.name.toList.map fun c => if c = '.' then '_' else c) =
        s'.account.name.toList.map fun c => if c = '.' then '_' else c := by
  rw [← Report.fileName_eq_iff hdate]
  constructor
  · intro hpath
    unfold pathOf Path.join at hpath
    rw [Report.filePath_eq h, Report.filePath_eq h'] at hpath
    exact List.singleton_inj.mp (List.append_cancel_left (congrArg Path.parts hpath))
  · intro hname
    rw [pathOf, pathOf, hname]

/-- The file of a statement is in the directory, or in one below it. -/
theorem leadsDown_pathOf (s : Statement) :
    i.directory.LeadsDown (Report.fileNames s) (i.pathOf s) :=
  Report.leadsDown_fileNames i.directory s

/-- Two statements are written to one place only if their paths are the same. -/
theorem pathOf_eq_of_locate {s s' : Statement} {place : Place}
    (h : t.locate (i.pathOf s).toString = .ok place)
    (h' : t.locate (i.pathOf s').toString = .ok place) : i.pathOf s = i.pathOf s' :=
  Tree.eq_of_locate i.normal_directory (i.leadsDown_pathOf s) (i.leadsDown_pathOf s') h h'

/-- Of the statements that are written to one path, the last one is there in the end. -/
theorem nodeAt_of_writeAll {text : Statement → String} {before after : List Statement}
    {s : Statement}
    (hwrite : t.writeAll ((before ++ s :: after).map fun s => i.fileOf s (text s)) = .ok t')
    (hpaths : ∀ later ∈ after, i.pathOf later ≠ i.pathOf s) :
    t'.nodeAt (i.pathOf s).toString = .file (text s).toUTF8 := by
  rw [List.map_append, List.map_cons, fileOf] at hwrite
  refine Tree.nodeAt_of_writeAll hwrite fun file hfile place hplace hplace' => ?_
  obtain ⟨later, hlater, hlocate⟩ := List.mem_map.mp hfile
  rw [← hlocate] at hplace'
  dsimp only [fileOf] at hplace'
  exact hpaths later hlater (i.pathOf_eq_of_locate hplace' hplace)

/-- All statements are there in the end if and only if those of one path read the same. -/
theorem forall_holds_iff {l : Ledger} {text : Statement → String} {statements : List Statement}
    (htext : ∀ s ∈ statements, Report.statement s l.accounts i.currency = .ok (text s))
    (hwrite : t.writeAll (statements.map fun s => i.fileOf s (text s)) = .ok t') :
    (∀ s ∈ statements, i.Holds t' l s) ↔
      ∀ s ∈ statements, ∀ s' ∈ statements, i.pathOf s = i.pathOf s' →
        Report.statement s l.accounts i.currency = Report.statement s' l.accounts i.currency := by
  constructor
  · intro hall s hs s' hs' hpath
    obtain ⟨x, hx, hfile⟩ := hall s hs
    obtain ⟨y, hy, hfile'⟩ := hall s' hs'
    rw [← hpath] at hfile'
    rw [hx, hy, String.toByteArray_inj.mp (Node.file.inj (hfile.symm.trans hfile'))]
  · intro hall s hs
    obtain ⟨before, s', after, hsplit, hpath, hpaths⟩ := exists_last (g := i.pathOf) ⟨s, hs, rfl⟩
    have hs' : s' ∈ statements := by simp [hsplit]
    have hsame := ok_unique (htext s hs) ((hall s hs s' hs' hpath.symm).trans (htext s' hs'))
    rw [← hpath] at hpaths
    rw [hsplit] at hwrite
    refine ⟨text s, htext s hs, ?_⟩
    rw [← hpath, i.nodeAt_of_writeAll hwrite hpaths, hsame]

end Invocation

/-! ## Plans without a fault -/

section

variable {α : Type} {f : α → Except Fault (List Step)} {xs : List α}

theorem exists_steps_of_untilFault (h : (untilFault (xs.map f)).2 = none) :
    ∀ x ∈ xs, ∃ steps, f x = .ok steps := by
  induction xs with
  | nil => exact fun x hx => absurd hx List.not_mem_nil
  | cons x xs ih =>
    rw [List.map_cons] at h
    cases hx : f x with
    | error fault =>
      rw [hx] at h
      cases h
    | ok steps =>
      rw [hx] at h
      exact List.forall_mem_cons.mpr ⟨⟨steps, hx⟩, ih h⟩

theorem untilFault_of_forall {g : α → List Step} (h : ∀ x ∈ xs, f x = .ok (g x)) :
    untilFault (xs.map f) = (xs.flatMap g, none) := by
  induction xs with
  | nil => rfl
  | cons x xs ih =>
    obtain ⟨hx, hxs⟩ := List.forall_mem_cons.mp h
    rw [List.map_cons, hx, untilFault, ih hxs]
    rfl

end

namespace Plan

variable {l : Ledger} {i : Invocation}

theorem writePart_eq_ok {s : Statement} {steps : List Step}
    (h : writePart l i.currency i.directory s = .ok steps) :
    ∃ text, Report.statement s l.accounts i.currency = .ok text ∧
      steps = i.statementSteps s text := by
  obtain ⟨text, htext, h⟩ := bind_eq_ok.mp h
  refine ⟨text, htext, ?_⟩
  split at h
  · cases h
  · cases h
    rfl

/-- Without a fault, the plan to write statements is to make the directory and to write them all. -/
theorem steps_of_writeParts {events : List Event} {statements : List Statement}
    (h : (ofParts events (writeParts l i.currency i.directory statements)).fault = none) :
    ∃ text : Statement → String,
      (∀ s ∈ statements, Report.statement s l.accounts i.currency = .ok (text s)) ∧
      (ofParts events (writeParts l i.currency i.directory statements)).steps =
        .ensureDirectory i.directory :: statements.flatMap fun s => i.statementSteps s (text s) := by
  have hparts := exists_steps_of_untilFault (f := writePart l i.currency i.directory) h
  choose! steps hsteps using hparts
  have htexts : ∀ s ∈ statements, ∃ text, Report.statement s l.accounts i.currency = .ok text ∧
      steps s = i.statementSteps s text := fun s hs => writePart_eq_ok (hsteps s hs)
  choose! text htext hsteps' using htexts
  have hall := untilFault_of_forall fun s hs => (hsteps s hs).trans (congrArg _ (hsteps' s hs))
  refine ⟨text, htext, ?_⟩
  rw [ofParts, writeParts, untilFault, hall]
  rfl

/-- Bytes that are no ledger leave nothing to do. -/
theorem ofBytes_of_error {bytes : ByteArray} {fault : Fault}
    (h : Ledger.ofFile i.options bytes = .error fault) :
    (ofBytes i bytes).steps = [] ∧ (ofBytes i bytes).fault = some fault := by
  unfold ofBytes
  dsimp only
  rw [Ledger.outcome_readFile, h]
  exact ⟨rfl, rfl⟩

/-- A ledger whose balance cannot be computed leaves nothing to do either. -/
theorem ofBytes_of_noBalance {bytes : ByteArray} {fault : Fault}
    (h : Ledger.ofFile i.options bytes = .ok l) (hb : l.balance = .error fault) :
    (ofBytes i bytes).steps = [] ∧ (ofBytes i bytes).fault = some fault := by
  unfold ofBytes
  dsimp only
  rw [Ledger.outcome_readFile, h]
  unfold Ledger.balance Balance.ofTransactions Balance.addAll at hb
  split at hb
  · cases hb
  · next hup =>
    cases hb
    dsimp only
    rw [hup]
    exact ⟨rfl, rfl⟩

theorem ofBytes_of_ok {bytes : ByteArray} {b : Balance}
    (h : Ledger.ofFile i.options bytes = .ok l) (hb : l.balance = .ok b) :
    ∃ events, ofBytes i bytes = ofTask i l b events := by
  unfold ofBytes
  dsimp only
  rw [Ledger.outcome_readFile, h]
  unfold Ledger.balance Balance.ofTransactions Balance.addAll at hb
  split at hb
  · next hup =>
    cases hb
    dsimp only
    rw [hup]
    exact ⟨_, rfl⟩
  · cases hb

/-- A plan without a fault has read the ledger and knows its balance. -/
theorem ofBytes_eq_ofTask {bytes : ByteArray} (h : (ofBytes i bytes).fault = none) :
    ∃ l b events, Ledger.ofFile i.options bytes = .ok l ∧ l.balance = .ok b ∧
      ofBytes i bytes = ofTask i l b events := by
  cases hl : Ledger.ofFile i.options bytes with
  | error fault => exact nomatch (ofBytes_of_error hl).2.symm.trans h
  | ok l =>
    cases hb : l.balance with
    | error fault => exact nomatch (ofBytes_of_noBalance hl hb).2.symm.trans h
    | ok b =>
      obtain ⟨events, hplan⟩ := ofBytes_of_ok hl hb
      exact ⟨l, b, events, rfl, hb, hplan⟩

/-- If it writes statements, it has the statement of each acronym. -/
theorem steps_of_writeStatements {b : Balance} {events : List Event} {acronyms : List String}
    (htask : i.task = .writeStatements acronyms) (h : (ofTask i l b events).fault = none) :
    ∃ statements, ∃ text : Statement → String,
      acronyms.mapM (Statement.ofAcronym l b) = .ok statements ∧
      (∀ s ∈ statements, Report.statement s l.accounts i.currency = .ok (text s)) ∧
      (ofTask i l b events).steps =
        .ensureDirectory i.directory :: statements.flatMap fun s => i.statementSteps s (text s) := by
  unfold ofTask at h ⊢
  rw [htask] at h ⊢
  dsimp only at h ⊢
  cases hstatements : acronyms.mapM (Statement.ofAcronym l b) with
  | error fault =>
    rw [hstatements] at h
    cases h
  | ok statements =>
    rw [hstatements] at h
    obtain ⟨text, htext, hsteps⟩ := steps_of_writeParts h
    exact ⟨statements, text, rfl, htext, hsteps⟩

/-- A plan without a fault was not stopped at its paths: it is that of the bytes of the ledger. -/
theorem ofRequest?_eq_ofBytes {r : Request} {found : Option (Except Fault ByteArray)}
    {outputIsUnfit : Bool} {p : Plan} (h : ofRequest? r found outputIsUnfit = some p)
    (hfault : p.fault = none) :
    ∃ i bytes, r.invocation? = some i ∧ found = some (.ok bytes) ∧ p = ofBytes i bytes := by
  unfold ofRequest? at h
  split at h
  · cases h
    cases hfault
  · split at h
    · cases h
    · split at h
      · cases h
        cases hfault
      · obtain ⟨i, hi, h⟩ := Option.bind_eq_some_iff.mp h
        obtain ⟨come, hcome, h⟩ := Option.bind_eq_some_iff.mp h
        cases h
        cases come with
        | error fault => cases hfault
        | ok bytes => exact ⟨i, bytes, hi, hcome, rfl⟩

end Plan

/-! ## Runs that end well -/

/-- Writing statements step by step is writing their files one after the other. -/
theorem perform_statementSteps {i : Invocation} {text : Statement → String}
    {statements : List Statement} {out : String}
    (h : perform t printed (statements.flatMap fun s => i.statementSteps s (text s)) =
      (t', out, none)) :
    t.writeAll (statements.map fun s => i.fileOf s (text s)) = .ok t' ∧
      out = printed ++ String.join (statements.map fun s => Text.plain (i.written s)) := by
  induction statements generalizing t printed with
  | nil =>
    cases h
    exact ⟨rfl, by simp⟩
  | cons s statements ih =>
    rw [List.flatMap_cons, Invocation.statementSteps, List.cons_append, List.singleton_append] at h
    obtain ⟨t₁, _, hstep, h⟩ := exists_succeeds_of_perform h
    obtain ⟨t₂, _, hline, h⟩ := exists_succeeds_of_perform h
    obtain ⟨hwrite, rfl⟩ := hstep.of_write
    obtain ⟨rfl, rfl⟩ := hline.of_print
    obtain ⟨hwrites, hout⟩ := ih h
    refine ⟨?_, ?_⟩
    · rw [Tree.writeAll, List.map_cons, List.foldlM_cons, Invocation.fileOf, hwrite]
      exact hwrites
    · rw [hout, List.map_cons, String.join_cons, String.append_empty, String.append_assoc]

theorem conclude_exitCode {log : String} {fault : Option Fault}
    (h : (conclude log t printed fault).exitCode = some 0) : fault = none := by
  cases fault with
  | none => rfl
  | some fault =>
    rw [conclude] at h
    split at h
    · cases h
    · cases h

/-- What is asked for has all that an invocation needs, and no more. -/
theorem eq_of_invocation? {r : Request} {i : Invocation} (h : r.invocation? = some i) :
    r = ⟨i.toSettings, some i.ledger, some i.task⟩ := by
  obtain ⟨ledger, hledger, h⟩ := Option.bind_eq_some_iff.mp h
  obtain ⟨task, htask, h⟩ := Option.bind_eq_some_iff.mp h
  cases h
  rw [← hledger, ← htask]

/-- A run that ends well has performed a plan without a fault. -/
theorem exists_plan_of_exitCode {env : Environment} {arguments : List String} {i : Invocation}
    (hinvocation : (Request.ofArguments? env arguments).bind Request.invocation? = some i)
    (hexit : (run t env arguments).exitCode = some 0) :
    ∃ bytes, t.read i.ledger = .ok bytes ∧ (Plan.ofBytes i bytes).fault = none ∧
      perform t "" (Plan.ofBytes i bytes).steps =
        ((run t env arguments).tree, (run t env arguments).stdout, none) := by
  obtain ⟨r, hr, hi⟩ := Option.bind_eq_some_iff.mp hinvocation
  unfold run at hexit ⊢
  rw [hr] at hexit ⊢
  dsimp only at hexit ⊢
  cases hplan : Plan.ofRequest? r (r.ledger.bind t.read?) (r.outputDirectory.any t.isClosed) with
  | none =>
    rw [hplan] at hexit
    cases hexit
  | some p =>
    rw [hplan] at hexit
    dsimp only [runPlan] at hexit ⊢
    have hnone := conclude_exitCode hexit
    obtain ⟨hrefused, hfault⟩ := Option.or_eq_none_iff.mp hnone
    obtain ⟨i', bytes, hi', hbytes, rfl⟩ := Plan.ofRequest?_eq_ofBytes hplan hfault
    obtain rfl := Option.some_inj.mp (hi'.symm.trans hi)
    rw [eq_of_invocation? hi] at hbytes
    refine ⟨bytes, (Tree.read?_eq_some_iff.mp hbytes).2.2, hfault, ?_⟩
    rw [hnone]
    exact Prod.ext rfl (Prod.ext rfl hrefused)

/-- What is left of a run that has written statements. Of the statements that go to one path the
last one stays, so that every statement is there in the end if and only if those that share a
path read the same. -/
theorem run_statements {env : Environment} {arguments acronyms : List String} {i : Invocation}
    (hinvocation : (Request.ofArguments? env arguments).bind Request.invocation? = some i)
    (htask : i.task = .writeStatements acronyms)
    (hexit : (run t env arguments).exitCode = some 0) :
    ∃ bytes l b statements, t.read i.ledger = .ok bytes ∧ Ledger.ofFile i.options bytes = .ok l ∧
      l.balance = .ok b ∧ acronyms.mapM (Statement.ofAcronym l b) = .ok statements ∧
      statements.map (·.account.acronym) = acronyms ∧
      (run t env arguments).stdout =
        String.join (statements.map fun s => Text.plain (i.written s)) ∧
      (∀ before s after, statements = before ++ s :: after →
        (∀ later ∈ after, i.pathOf later ≠ i.pathOf s) →
        i.Holds (run t env arguments).tree l s) ∧
      ((∀ s ∈ statements, i.Holds (run t env arguments).tree l s) ↔
        ∀ s ∈ statements, ∀ s' ∈ statements, i.pathOf s = i.pathOf s' →
          Report.statement s l.accounts i.currency = Report.statement s' l.accounts i.currency) := by
  obtain ⟨bytes, hbytes, hfault, hperform⟩ := exists_plan_of_exitCode hinvocation hexit
  obtain ⟨l, b, events, hl, hb, hplan⟩ := Plan.ofBytes_eq_ofTask hfault
  rw [hplan] at hfault hperform
  obtain ⟨statements, text, hstatements, htext, hsteps⟩ :=
    Plan.steps_of_writeStatements htask hfault
  rw [hsteps] at hperform
  obtain ⟨t₁, _, hmake, hperform⟩ := exists_succeeds_of_perform hperform
  obtain ⟨-, rfl⟩ := hmake.of_ensureDirectory
  obtain ⟨hwrite, hstdout⟩ := perform_statementSteps hperform
  refine ⟨bytes, l, b, statements, hbytes, hl, hb, hstatements, ?_, ?_, ?_, ?_⟩
  · exact map_of_mapM_eq_ok hstatements fun _ _ => Statement.acronym_of_ofAcronym
  · rw [hstdout, String.append_empty, String.empty_append]
  · intro before s after hsplit hpaths
    have hs : s ∈ statements := by simp [hsplit]
    rw [hsplit] at hwrite
    exact ⟨text s, htext s hs, i.nodeAt_of_writeAll hwrite hpaths⟩
  · exact i.forall_holds_iff htext hwrite

/-- A ledger of two accounts of one name. -/
def namesakesText : String :=
  "accounting_date 1.2.2024\naccount AA Alex\naccount BB Alex\n" ++
    "invoice AA -> BB 1.00 1.1.2024 Tea\n"

/-- The ledger in a file. -/
def namesakesTree : Tree := .ofFiles [] [("l.ledger", namesakesText.toUTF8)]

/-- A run that writes the statements of both accounts. -/
def namesakesRun : Invocation := ⟨⟨false, {}, "CHF", none⟩, "l.ledger", .writeStatements ["AA", "BB"]⟩

/-- The run ends well, but not with both statements. -/
theorem run_statements_namesakes :
    (run namesakesTree [] ["statement", "l.ledger", "AA", "BB"]).exitCode = some 0 ∧
      ∃ bytes l b statements, namesakesTree.read "l.ledger" = .ok bytes ∧
        Ledger.ofFile {} bytes = .ok l ∧ l.balance = .ok b ∧
        ["AA", "BB"].mapM (Statement.ofAcronym l b) = .ok statements ∧
        ¬ ∀ s ∈ statements,
          namesakesRun.Holds (run namesakesTree [] ["statement", "l.ledger", "AA", "BB"]).tree l s := by
  have hinvocation : (Request.ofArguments? [] ["statement", "l.ledger", "AA", "BB"]).bind
      Request.invocation? = some namesakesRun := by decide +kernel
  have hexit : (run namesakesTree [] ["statement", "l.ledger", "AA", "BB"]).exitCode = some 0 := by
    decide +kernel
  -- The statements share a path but not a text.
  have hclash : (do
      let l ← (Ledger.ofFile {} (← (namesakesTree.read "l.ledger").toOption)).toOption
      let b ← l.balance.toOption
      let statements ← (["AA", "BB"].mapM (Statement.ofAcronym l b)).toOption
      return statements.any fun s => statements.any fun s' =>
        namesakesRun.pathOf s == namesakesRun.pathOf s' &&
          (Report.statement s l.accounts "CHF").toOption !=
            (Report.statement s' l.accounts "CHF").toOption) = some true := by decide +kernel
  obtain ⟨bytes, l, b, statements, hbytes, hl, hb, hstatements, -, -, -, hiff⟩ :=
    run_statements hinvocation rfl hexit
  refine ⟨hexit, bytes, l, b, statements, hbytes, hl, hb, hstatements, fun hall => ?_⟩
  have hbytes' : (namesakesTree.read "l.ledger").toOption = some bytes := toOption_eq_some.mpr hbytes
  have hl' : (Ledger.ofFile {} bytes).toOption = some l := toOption_eq_some.mpr hl
  rw [hbytes'] at hclash
  simp only [Option.bind_eq_bind, Option.bind_some, hl', toOption_eq_some.mpr hb,
    toOption_eq_some.mpr hstatements, Option.pure_def, Option.some_inj, List.any_eq_true,
    Bool.and_eq_true, beq_iff_eq, bne_iff_ne] at hclash
  obtain ⟨s, hs, s', hs', hpath, htext⟩ := hclash
  exact htext (congrArg Except.toOption (hiff.mp hall s hs s' hs' hpath))

end Command

end HouseLedger
