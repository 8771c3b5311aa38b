import HouseLedger.Proofs.Ledger.Run
import HouseLedger.Proofs.Text.Lines

/-!
# Ledgers in files

A file is read as its text with a line feed for each carriage return, so that a lone
carriage return ends a line in a file, although it belongs to its line in a ledger's text.
`Ledger.FileAgrees` says of a text that this makes no difference: it holds without lone
carriage returns (`Ledger.fileAgrees_of_not_hasLoneReturn`), and any other text that is a
ledger can be gone on with so that the difference is seen
(`Ledger.not_hasLoneReturn_of_fileAgrees`).
-/

namespace HouseLedger

open Outcome Text

variable {options : Options} {reference : Date}

namespace Draft

theorem addLines_malformed (d : Draft) (number : Nat) {text : List Char}
    (h : Line.ofText? text = none) :
    d.addLines options reference number [text] =
      (d, some (.lineMalformed number (String.ofList text))) := by
  have hline : d.addLine options reference number text =
      .error (.lineMalformed number (String.ofList text)) := by rw [addLine, h]
  rw [addLines, hline]

end Draft

namespace Ledger

/-! ## Lines -/

/-- The ledger of a first line and the lines after it. -/
def ofLines (options : Options) (header : List Char) (body : List (List Char)) :
    Except Fault Ledger :=
  match readHeader options header with
  | .error fault => .error fault
  | .ok reference =>
    match ({} : Draft).addLines options reference 2 body with
    | (_, some fault) => .error fault
    | (d, none) => .ok (d.finish reference)

theorem ofString_eq_ofLines (options : Options) (text : String) :
    ofString options text =
      ofLines options (splitLines text.toList).1 (splitLines text.toList).2 := by
  unfold ofString read ofLines
  dsimp only
  cases readHeader options (splitLines text.toList).1 with
  | error fault => rfl
  | ok reference =>
    dsimp only
    cases ({} : Draft).addLines options reference 2 (splitLines text.toList).2 with
    | mk d fault =>
      cases fault with
      | none => rfl
      | some fault => rfl

/-- A line that has none of the forms is the first fault, unless there is one before it. -/
theorem ofLines_append_malformed (options : Options) (header : List Char)
    (body : List (List Char)) {line : List Char} (h : Line.ofText? line = none) :
    ofLines options header (body ++ [line]) =
      match ofLines options header body with
      | .error fault => .error fault
      | .ok _ => .error (.lineMalformed (2 + body.length) (String.ofList line)) := by
  unfold ofLines
  cases readHeader options header with
  | error fault => rfl
  | ok reference =>
    dsimp only
    rw [Draft.addLines_append]
    cases ({} : Draft).addLines options reference 2 body with
    | mk d fault =>
      cases fault with
      | none =>
        dsimp only
        rw [Draft.addLines_malformed d _ h]
      | some fault => rfl

/-! ## Files -/

/-- Whether a file that has the text holds the ledger of the text, or fails with the same
fault. -/
def FileAgrees (options : Options) (text : String) : Prop :=
  ∀ bytes, String.fromUTF8? bytes = some text → ofFile options bytes = ofString options text

theorem ofFile_eq {bytes : ByteArray} {text : String} (h : String.fromUTF8? bytes = some text)
    (options : Options) :
    ofFile options bytes = ofString options (String.ofList (unifyBreaks text.toList)) := by
  have hdecode : decode bytes = .ok (unifyBreaks text.toList) := by rw [decode, h]
  rw [ofFile, hdecode, bind_ok, ofString, String.toList_ofList]

theorem exists_ofFile_eq {bytes : ByteArray} (h : String.fromUTF8? bytes ≠ none)
    (options : Options) : ∃ text, ofFile options bytes = ofString options text := by
  obtain ⟨text, htext⟩ := Option.ne_none_iff_exists'.mp h
  exact ⟨_, ofFile_eq htext options⟩

theorem ofFile_of_notText {bytes : ByteArray} (h : String.fromUTF8? bytes = none)
    (options : Options) : ofFile options bytes = .error .notText := by
  have hdecode : decode bytes = .error .notText := by rw [decode, h]
  rw [ofFile, hdecode]
  rfl

/-- The ledger that comes of reading a file does not depend on its path. -/
theorem outcome_readFile (options : Options) (path : String) (bytes : ByteArray) :
    (readFile options path bytes).outcome = ofFile options bytes := by
  unfold readFile ofFile
  cases decode bytes with
  | error fault => rfl
  | ok text => rfl

theorem fromUTF8?_toUTF8 (text : String) : String.fromUTF8? text.toUTF8 = some text :=
  dif_pos text.isValidUTF8

theorem fileAgrees_iff_ofString_eq (options : Options) (text : String) :
    FileAgrees options text ↔
      ofString options (String.ofList (unifyBreaks text.toList)) = ofString options text := by
  constructor
  · intro h
    rw [← ofFile_eq (fromUTF8?_toUTF8 text)]
    exact h text.toUTF8 (fromUTF8?_toUTF8 text)
  · intro h bytes hbytes
    rw [ofFile_eq hbytes, h]

theorem fileAgrees_of_not_hasLoneReturn (options : Options) {text : String}
    (h : ¬ HasLoneReturn text.toList) : FileAgrees options text := by
  rw [fileAgrees_iff_ofString_eq, ofString_eq_ofLines, ofString_eq_ofLines, String.toList_ofList,
    (splitLines_unifyBreaks_eq_iff text.toList).mpr h]

/-- A text that is read has at most as many lines as its file, and each lone carriage return
shows in the number of a line that is added behind it. -/
theorem not_hasLoneReturn_of_fileAgrees {text : String} {l : Ledger}
    (hread : ofString options (text ++ "\n") = .ok l)
    (hagrees : ∀ rest : String, ¬ HasLoneReturn rest.toList →
      FileAgrees options (text ++ "\n" ++ rest)) : ¬ HasLoneReturn (text ++ "\n").toList := by
  obtain ⟨first, more, first', more', hlines, hlength, hadded⟩ :=
    exists_splitLines_append text.toList
  have hledger : ofLines options first more = .ok l := by
    rw [ofString_eq_ofLines, String.toList_append] at hread
    exact (congrArg (fun p => ofLines options p.1 p.2) hlines).symm.trans hread
  -- Both readings of the text with a line of one character added to it.
  have hend (c : Char) (hfeed : c ≠ '\n') (hreturn : c ≠ '\r') (h : Line.ofText? [c] = none) :
      (match ofLines options first' more' with
        | .error fault => .error fault
        | .ok _ => .error (.lineMalformed (2 + more'.length) (String.ofList [c]))) =
      (.error (.lineMalformed (2 + more.length) (String.ofList [c])) : Except Fault Ledger) := by
    obtain ⟨htext, hfile⟩ := hadded c hfeed hreturn
    have hlone : ¬ HasLoneReturn (String.ofList [c]).toList := by
      simp [hasLoneReturn_cons, hreturn, not_hasLoneReturn_nil]
    have heq := (fileAgrees_iff_ofString_eq ..).mp (hagrees (String.ofList [c]) hlone)
    have htoList : (text ++ "\n" ++ String.ofList [c]).toList = text.toList ++ ['\n', c] := by
      simp
    rw [ofString_eq_ofLines, ofString_eq_ofLines, String.toList_ofList, htoList, htext, hfile,
      ofLines_append_malformed options _ _ h, ofLines_append_malformed options _ _ h,
      hledger] at heq
    exact heq
  have hx := hend 'x' (by decide) (by decide) (by decide)
  have hy := hend 'y' (by decide) (by decide) (by decide)
  rw [← loneReturns_eq_zero_iff, String.toList_append]
  cases hfile : ofLines options first' more' with
  | error fault =>
    -- A fault before the added line cannot name both lines that were added.
    rw [hfile] at hx hy
    have hsame := Except.error.inj (hx.symm.trans hy)
    simp at hsame
  | ok l' =>
    rw [hfile] at hx
    have hnumber := Fault.lineMalformed.inj (Except.error.inj hx)
    have hzero : loneReturns (text.toList ++ ['\n']) = 0 := by omega
    exact hzero

/-- A file is read with a break for each of its carriage returns. Its lines are those of its
text exactly if no carriage return is alone, and then it agrees with its text. A file whose
text is a ledger agrees with it, whatever else may be written behind it, only then. -/
theorem fileAgrees_iff (options : Options) (text : String) :
    (∀ bytes, String.fromUTF8? bytes = some text →
      ofFile options bytes = ofString options (String.ofList (unifyBreaks text.toList))) ∧
    (splitLines (unifyBreaks text.toList) = splitLines text.toList ↔
      ¬ HasLoneReturn text.toList) ∧
    (¬ HasLoneReturn text.toList → FileAgrees options text) ∧
    ∀ l, ofString options (text ++ "\n") = .ok l →
      ((∀ rest : String, ¬ HasLoneReturn rest.toList →
        FileAgrees options (text ++ "\n" ++ rest)) ↔ ¬ HasLoneReturn (text ++ "\n").toList) := by
  refine ⟨fun bytes h => ofFile_eq h options, splitLines_unifyBreaks_eq_iff text.toList,
    fileAgrees_of_not_hasLoneReturn options, fun l hread => ?_⟩
  constructor
  · exact not_hasLoneReturn_of_fileAgrees hread
  · intro htext rest hrest
    refine fileAgrees_of_not_hasLoneReturn options ?_
    have htoList : (text ++ "\n" ++ rest).toList = text.toList ++ '\n' :: rest.toList := by simp
    rw [htoList, hasLoneReturn_append_feed, not_or]
    rw [String.toList_append] at htext
    exact ⟨htext, hrest⟩

/-- A ledger with a carriage return in a note. -/
def pizzaText : String :=
  "accounting_date 1.2.2024\naccount AA Alice\naccount BB Bob\n" ++
    "invoice AA -> BB 1.00 1.1.2024 Pizza\rparty"

theorem fileAgrees_iff_pizza :
    ∃ l, ofString {} (pizzaText ++ "\n") = .ok l ∧ HasLoneReturn (pizzaText ++ "\n").toList ∧
      ¬ ∀ rest : String, ¬ HasLoneReturn rest.toList →
        FileAgrees {} (pizzaText ++ "\n" ++ rest) := by
  have hread : (ofString {} (pizzaText ++ "\n")).toOption.isSome := by decide +kernel
  have hlone : HasLoneReturn (pizzaText ++ "\n").toList :=
    Classical.not_not.mp (mt (loneReturns_eq_zero_iff _).mpr (by decide +kernel))
  obtain ⟨l, hl⟩ := Option.isSome_iff_exists.mp hread
  rw [toOption_eq_some] at hl
  exact ⟨l, hl, hlone, fun hall =>
    ((fileAgrees_iff {} pizzaText).2.2.2 l hl).mp hall hlone⟩

/-- The carriage return splits the line of the file. -/
example :
    (ofString {} pizzaText).toOption.map (·.invoices.map (·.note)) = some ["Pizza\rparty"] ∧
      (ofFile {} pizzaText.toUTF8).toOption = none := by
  decide +kernel

end Ledger

end HouseLedger
