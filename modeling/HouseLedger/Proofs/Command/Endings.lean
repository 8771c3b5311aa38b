import HouseLedger.Proofs.Command.Faults

/-!
# How a run ends

Arguments are accepted if they ask for a run on a file that the user may read
(`Command.Accepts`), and then the run performs the plan for what comes of reading that file. Other
arguments are refused (`Command.exists_accepts_or_refused`).

Most of the faults that stop it are told to the user, who sees one message and the exit code 1.
The others break the run off: bytes that are no text, sums that are too large, amounts that are
too long to be shown, a name of an account that no path can hold, and text that cannot be put out
(`Command.run_ends`).

A ledger file that cannot be read, a fault in the ledger, or an account that does not exist ends
the run before its first step: then nothing is printed or written (`Command.run_of_failsFirst`).
-/

namespace HouseLedger

open Outcome

namespace Command

/-! ## Faults of the file system -/

theorem isTold_of_ensureAlong {t : Tree} {start : Path.Start} {names : List String}
    {fault : Fault} (h : t.ensureAlong start names = .error fault) : fault.IsTold := by
  induction names generalizing t with
  | nil =>
    unfold Tree.ensureAlong at h
    dsimp only at h
    split at h
    · cases h
    · next heq => cases heq
    · cases h
      exact .file ..
  | cons name earlier ih =>
    unfold Tree.ensureAlong at h
    dsimp only at h
    split at h
    · cases h
    · next heq =>
      cases heq
      rcases bind_eq_error.mp h with h | ⟨t', -, h⟩
      · exact ih h
      · obtain ⟨cause, -, rfl⟩ := mapError_eq_error.mp h
        exact .file ..
    · cases h
      exact .file ..

/-- A step fails with a fault of the file system, or since its text cannot be put out. -/
theorem Step.Fails.isTold_or_eq_notEncodable {t t' : Tree} {step : Step} {fault : Fault}
    (h : step.Fails t t' fault) : fault.IsTold ∨ fault = .notEncodable := by
  cases h with
  | print _ => exact .inr rfl
  | ensureDirectory hmake => exact .inl (isTold_of_ensureAlong hmake)
  | write _ => exact .inl (.file ..)
  | begun _ _ => exact .inr rfl

theorem Interrupted.isTold_or_eq_notEncodable {t : Tree} {steps : List Step} {fault : Fault}
    (h : Interrupted t steps fault) : fault.IsTold ∨ fault = .notEncodable := by
  induction h with
  | head hstep => exact hstep.isTold_or_eq_notEncodable
  | tail _ _ ih => exact ih

/-! ## Runs -/

variable {t : Tree} {env : Environment} {arguments : List String} {i : Invocation}

/-- The arguments ask for a run on a file that the user may read, and the directory that is named
can be one. -/
structure Accepts (t : Tree) (env : Environment) (arguments : List String) (i : Invocation) :
    Prop where
  asked : (Request.ofArguments? env arguments).bind Request.invocation? = some i
  ledger_hasPath : Path.holdsNull i.ledger = false
  ledger_isFile : (t.nodeAt i.ledger).isFile = true
  ledger_isOpen : t.isBarred i.ledger = false
  directory_hasPath : ∀ path, i.outputDirectory = some path → Path.holdsNull path = false
  directory_isOpen : ∀ path, i.outputDirectory = some path → t.isClosed path = false

/-- A run on a file performs the plan for what comes of reading it. -/
theorem Accepts.run_eq (h : Accepts t env arguments i) :
    run t env arguments = runPlan t i.verbose (Plan.ofFile i (t.read i.ledger)) := by
  obtain ⟨r, hr, hi⟩ := Option.bind_eq_some_iff.mp h.asked
  have hnull := (Option.any_eq_false _ _).mpr h.directory_hasPath
  have hopen := (Option.any_eq_false _ _).mpr h.directory_isOpen
  have hfound := Tree.read?_eq_some_iff.mpr ⟨h.ledger_isFile, h.ledger_isOpen, rfl⟩
  have hplan : Plan.ofRequest? r (r.ledger.bind t.read?) (r.outputDirectory.any t.isClosed) =
      some (Plan.ofFile i (t.read i.ledger)) := by
    rw [Plan.ofRequest?, hi, eq_of_invocation? hi]
    dsimp only
    rw [hnull, hopen, Option.any_some, h.ledger_hasPath, Option.bind_some, hfound]
    rfl
  rw [run, hr]
  dsimp only
  rw [hplan, eq_of_invocation? hi]

/-- Other arguments are refused, or a path breaks the run off that no file can have. Nothing is
written then. -/
theorem exists_accepts_or_refused (t : Tree) (env : Environment) (arguments : List String) :
    (∃ i, Accepts t env arguments i) ∨ run t env arguments = refuse t ∨
      (run t env arguments).escaped = some .nullInPath ∧ (run t env arguments).tree = t := by
  unfold run
  cases hr : Request.ofArguments? env arguments with
  | none => exact .inr (.inl rfl)
  | some r =>
    dsimp only
    unfold Plan.ofRequest?
    split_ifs with hnull hfile hledger
    · exact .inr (.inr ⟨rfl, rfl⟩)
    · exact .inr (.inl rfl)
    · exact .inr (.inr ⟨rfl, rfl⟩)
    · cases hi : r.invocation? with
      | none => exact .inr (.inl rfl)
      | some i =>
        cases hfound : r.ledger.bind t.read? with
        | none => exact .inr (.inl rfl)
        | some found =>
          rw [Bool.not_eq_true] at hnull hfile hledger
          obtain rfl := eq_of_invocation? hi
          obtain ⟨hisFile, hopen, -⟩ := Tree.read?_eq_some_iff.mp hfound
          exact .inl ⟨i, by rw [hr]; exact hi, hledger, hisFile, hopen,
            (Option.any_eq_false _ _).mp hnull, (Option.any_eq_false _ _).mp hfile⟩

theorem escaped_conclude {log printed : String} {found : Option Fault} {fault : Fault} :
    (conclude log t printed found).escaped = some fault ↔
      found = some fault ∧ isReported fault = false := by
  cases found with
  | none => simp [conclude]
  | some fault' =>
    rw [conclude, Option.some_inj]
    split
    · next h =>
      constructor
      · intro heq
        cases heq
      · rintro ⟨rfl, h'⟩
        rw [h] at h'
        cases h'
    · next h =>
      rw [Bool.not_eq_true] at h
      constructor
      · intro heq
        cases heq
        exact ⟨rfl, h⟩
      · rintro ⟨rfl, -⟩
        rfl

/-- A run that is not broken off ends well or with a message. -/
theorem conclude_of_escaped_eq_none {log printed : String} {found : Option Fault}
    (h : (conclude log t printed found).escaped = none) :
    (conclude log t printed found).exitCode = some 0 ∨
      (conclude log t printed found).exitCode = some 1 ∧ ∃ fault, found = some fault ∧
        isReported fault = true ∧
        (conclude log t printed found).stderr = log ++ Text.plain (complaint fault) := by
  cases found with
  | none => exact .inl rfl
  | some fault =>
    rw [conclude] at h ⊢
    split at h
    · next hreported =>
      rw [if_pos hreported]
      exact .inr ⟨rfl, fault, rfl, hreported, rfl⟩
    · cases h

/-- A run is broken off by a step whose text cannot be put out, or by a fault of its plan that the
user is not told, if no step before fails. -/
theorem escaped_runPlan {verbose : Bool} {p : Plan} {fault : Fault} :
    (runPlan t verbose p).escaped = some fault ↔
      Interrupted t p.steps fault ∧ fault = .notEncodable ∨
        p.fault = some fault ∧ isReported fault = false ∧
          ∀ other, ¬ Interrupted t p.steps other := by
  unfold runPlan
  dsimp only
  rw [escaped_conclude, Option.or_eq_some_iff, fault_perform_iff, Option.eq_none_iff_forall_ne_some,
    forall_congr' fun other => not_congr fault_perform_iff]
  constructor
  · rintro ⟨hinterrupted | ⟨hperformed, hfault⟩, hreported⟩
    · refine .inl ⟨hinterrupted,
        hinterrupted.isTold_or_eq_notEncodable.resolve_left fun htold => ?_⟩
      rw [htold.isReported] at hreported
      cases hreported
    · exact .inr ⟨hfault, hreported, hperformed⟩
  · rintro (⟨hinterrupted, rfl⟩ | ⟨hfault, hreported, hperformed⟩)
    · exact ⟨.inl hinterrupted, rfl⟩
    · exact ⟨.inr ⟨hperformed, hfault⟩, hreported⟩

/-- A run ends with the exit code 0, or with the exit code 1 and a message, unless it is broken
off. It is broken off by a text that cannot be put out, or, if no step fails, by bytes that are no
text, by a sum that is too large, by an amount that is too long to be shown or by an account whose
statement no file can have, and by nothing else. -/
theorem run_ends (h : Accepts t env arguments i) :
    (∀ fault, (run t env arguments).escaped = some fault ↔
      Interrupted t (Plan.ofFile i (t.read i.ledger)).steps fault ∧ fault = .notEncodable ∨
        i.Stops (t.read i.ledger) fault ∧ isReported fault = false ∧
          ∀ other, ¬ Interrupted t (Plan.ofFile i (t.read i.ledger)).steps other) ∧
    ((run t env arguments).escaped = none →
      (run t env arguments).exitCode = some 0 ∨
        (run t env arguments).exitCode = some 1 ∧ ∃ fault : Fault, fault.IsTold ∧
          (run t env arguments).stderr = (Plan.ofFile i (t.read i.ledger)).log i.verbose ++
            Text.plain (complaint fault)) := by
  rw [h.run_eq]
  refine ⟨fun fault => ?_, fun hescaped => ?_⟩
  · rw [escaped_runPlan, Plan.fault_ofFile_eq_some_iff]
  · rcases conclude_of_escaped_eq_none hescaped with hexit | ⟨hexit, fault, hfound, hreported, hlog⟩
    · exact .inl hexit
    · refine .inr ⟨hexit, fault, ?_, hlog⟩
      rcases Option.or_eq_some_iff.mp hfound with hrefused | ⟨-, hfault⟩
      · refine (fault_perform_iff.mp hrefused).isTold_or_eq_notEncodable.resolve_right ?_
        rintro rfl
        cases hreported
      · exact (Plan.fault_ofFile_eq_some_iff.mp hfault).isTold hreported

/-- A file that is no text. -/
def binaryTree : Tree := .ofFiles [] [("l.ledger", ⟨#[0xff]⟩)]

/-- A run that shows it. -/
def binaryRun : Invocation := ⟨⟨false, {}, "CHF", none⟩, "l.ledger", .overview⟩

theorem run_ends_binary :
    (run binaryTree [] ["show", "l.ledger"]).escaped = some .notText ∧
      (run binaryTree [] ["show", "l.ledger"]).exitCode = none := by
  have haccepts : Accepts binaryTree [] ["show", "l.ledger"] binaryRun :=
    ⟨by decide +kernel, by decide +kernel, by decide +kernel, by decide +kernel,
      (Option.any_eq_false _ _).mp rfl, (Option.any_eq_false _ _).mp rfl⟩
  have hbytes : binaryTree.read "l.ledger" = .ok ⟨#[0xff]⟩ := rfl
  have hnotText : String.fromUTF8? ⟨#[0xff]⟩ = none := by decide +kernel
  refine ⟨((run_ends haccepts).1 _).mpr (.inr ⟨?_, rfl, fun other hinterrupted => ?_⟩),
    by decide +kernel⟩
  · exact hbytes ▸ .notText hnotText
  · rw [show binaryTree.read binaryRun.ledger = _ from hbytes, Plan.ofFile,
      (Plan.ofBytes_of_error (Ledger.ofFile_of_notText hnotText _)).1] at hinterrupted
    cases hinterrupted

/-! ## Faults before the first step -/

namespace Invocation

/-- The ledger file cannot be read or is no ledger, the ledger has no balance, or an account is not
declared and all before it have their statements. -/
inductive FailsFirst (i : Invocation) : Except Fault ByteArray → Fault → Prop
  | unread {fault : Fault} : FailsFirst i (.error fault) fault
  | noLedger {bytes : ByteArray} {fault : Fault} :
      Ledger.ofFile i.options bytes = .error fault → FailsFirst i (.ok bytes) fault
  | noBalance {bytes : ByteArray} {l : Ledger} : Ledger.ofFile i.options bytes = .ok l →
      ¬ Balance.Nettable [] (l.invoices ++ l.payments) → FailsFirst i (.ok bytes) .overflow
  | unknown {bytes : ByteArray} {l : Ledger} {b : Balance} {before after : List String}
      {a : String} :
      Ledger.ofFile i.options bytes = .ok l → l.balance = .ok b →
      i.acronyms = before ++ a :: after →
      (∀ earlier ∈ before, ∃ s, Statement.ofAcronym l b earlier = .ok s) →
      l.accounts.contains a = false → FailsFirst i (.ok bytes) (.accountUnknown a)

/-- Such a fault is told, unless the bytes are no text or a sum is too large. -/
theorem FailsFirst.isTold_or {fault : Fault} (h : i.FailsFirst (t.read i.ledger) fault) :
    fault.IsTold ∨ fault = .notText ∨ fault = .overflow := by
  generalize hfound : t.read i.ledger = found at h
  cases h with
  | unread => exact .inl (Tree.isTold_of_read hfound)
  | @noLedger bytes _ hfault =>
    by_cases htext : String.fromUTF8? bytes = none
    · exact .inr (.inl (Except.error.inj (hfault.symm.trans (Ledger.ofFile_of_notText htext _))))
    · exact (Ledger.isTold_or_eq_overflow_of_ofFile htext hfault).imp_right .inr
  | noBalance _ _ => exact .inr (.inr rfl)
  | unknown _ _ _ _ _ => exact .inl (.accountUnknown ..)

end Invocation

namespace Plan

variable {l : Ledger} {b : Balance} {fault : Fault}

theorem ofFile_of_failsFirst {found : Except Fault ByteArray} (h : i.FailsFirst found fault) :
    (ofFile i found).steps = [] ∧ (ofFile i found).fault = some fault := by
  cases h with
  | unread => exact ⟨rfl, rfl⟩
  | noLedger hfault => exact ofBytes_of_error hfault
  | noBalance hl hlarge =>
    have hwf := Ledger.wellFormed_of_ofFile hl
    exact ofBytes_of_noBalance hl (hwf.failsIff_balance.eq_error_iff.mpr ⟨hlarge, rfl⟩)
  | @unknown _ l b before after a hl hb hsplit hbefore hunknown =>
    obtain ⟨events, hplan⟩ := ofBytes_of_ok hl hb
    have hfault := Statement.ofAcronym_of_unknown (b := b) hunknown
    have hno : ¬ ∃ s, Statement.ofAcronym l b a = .ok s := by simp [hfault]
    have hfirst : FirstWithout (fun a => ∃ s, Statement.ofAcronym l b a = .ok s) i.acronyms a :=
      hsplit ▸ .append_left hbefore (.head hno)
    rw [ofFile, hplan]
    exact Invocation.ofTask_of_error (mapM_eq_error_iff.mpr ⟨a, hfirst, hfault⟩)

end Plan

/-- A run whose ledger cannot be read or has no balance, or whose accounts do not all exist, prints
nothing, and leaves all files and directories as they are. It ends with the exit code 1 and one
message, but for two faults that break it off: bytes that are no text, and a sum that is too
large. -/
theorem run_of_failsFirst (h : Accepts t env arguments i) {fault : Fault}
    (hfails : i.FailsFirst (t.read i.ledger) fault) :
    fault.IsTold ∧
        run t env arguments =
          { exitCode := some 1
            stdout := ""
            stderr := (Plan.ofFile i (t.read i.ledger)).log i.verbose ++
              Text.plain (complaint fault)
            escaped := none
            tree := t } ∨
      (fault = .notText ∨ fault = .overflow) ∧
        run t env arguments =
          { exitCode := none
            stdout := ""
            stderr := (Plan.ofFile i (t.read i.ledger)).log i.verbose
            escaped := some fault
            tree := t } := by
  obtain ⟨hsteps, hfault⟩ := Plan.ofFile_of_failsFirst hfails
  rw [h.run_eq, runPlan, hsteps, hfault]
  dsimp only [perform]
  rw [Option.none_or, conclude]
  rcases hfails.isTold_or with htold | hescapes
  · rw [if_pos htold.isReported]
    exact .inl ⟨htold, rfl⟩
  · refine .inr ⟨hescapes, ?_⟩
    rcases hescapes with rfl | rfl
    · rfl
    · rfl

/-- The accounts of a run of which the second one does not exist. -/
def strangerRun : Invocation :=
  ⟨⟨false, {}, "CHF", some "out"⟩, "l.ledger", .writeStatements ["AA", "ZZ"]⟩

theorem run_of_failsFirst_stranger :
    run namesakesTree [] ["statement", "l.ledger", "AA", "ZZ", "--output-dir", "out"] =
      { exitCode := some 1
        stdout := ""
        stderr := "Error: Account 'ZZ' not found\n"
        escaped := none
        tree := namesakesTree } := by
  have haccepts : Accepts namesakesTree []
      ["statement", "l.ledger", "AA", "ZZ", "--output-dir", "out"] strangerRun :=
    ⟨by decide +kernel, by decide +kernel, by decide +kernel, by decide +kernel,
      (Option.any_eq_false _ _).mp (by decide +kernel),
      (Option.any_eq_false _ _).mp (by decide +kernel)⟩
  have hread : (do
      let l ← (Ledger.ofFile {} (← (namesakesTree.read "l.ledger").toOption)).toOption
      let b ← l.balance.toOption
      let _ ← (Statement.ofAcronym l b "AA").toOption
      return l.accounts.contains "ZZ") = some false := by decide +kernel
  obtain ⟨bytes, hbytes, hread⟩ := Option.bind_eq_some_iff.mp hread
  obtain ⟨l, hl, hread⟩ := Option.bind_eq_some_iff.mp hread
  obtain ⟨b, hb, hread⟩ := Option.bind_eq_some_iff.mp hread
  obtain ⟨s, hs, hunknown⟩ := Option.bind_eq_some_iff.mp hread
  have hfirst : strangerRun.FailsFirst (namesakesTree.read "l.ledger") (.accountUnknown "ZZ") :=
    toOption_eq_some.mp hbytes ▸
      .unknown (toOption_eq_some.mp hl) (toOption_eq_some.mp hb) (List.singleton_append.symm)
        (List.forall_mem_singleton.mpr ⟨s, toOption_eq_some.mp hs⟩) (Option.some_inj.mp hunknown)
  rcases run_of_failsFirst haccepts hfirst with ⟨-, hrun⟩ | ⟨hescapes, -⟩
  · exact hrun.trans rfl
  · rcases hescapes with heq | heq
    · cases heq
    · cases heq

end Command

end HouseLedger
