import HouseLedger.Proofs.Ledger.Parts

/-!
# The parties of an invoice

The accounts of an invoice are found in two steps. `Line.takeParties?` takes the text that names
them, and `Line.splitParties?` divides it afterwards, first at the arrows and then at the colons.
Both agree on every blank: what is taken is a row of acronyms and marks
(`Line.takeParties?_eq_some_iff`), and dividing a row gives its acronyms in their order
(`Line.splitParties?_eq`).
-/

namespace HouseLedger

open Text (isBlank)

/-- The words that name the parties of an invoice. -/
def partyWords (sender : String) (sharers : List String) (recipient : String)
    (chain : List String) : List String :=
  sender :: (sharers.flatMap (fun a => [":", a]) ++
    (recipient :: chain).flatMap fun a => ["->", a])

theorem not_isBlank_of_isUpper {c : Char} (h : c.isUpper = true) : isBlank c = false := by
  rw [← Bool.not_eq_true]
  intro hblank
  obtain ⟨hlow, hhigh⟩ : 'A'.val ≤ c.val ∧ c.val ≤ 'Z'.val := of_decide_eq_true h
  rw [UInt32.le_iff_toNat_le] at hlow hhigh
  simp only [isBlank, Text.blankRanges, List.any_cons, List.any_nil, Bool.or_eq_true,
    Bool.and_eq_true, decide_eq_true_eq, Char.toNat, Bool.false_eq_true, or_false] at hblank
  have h65 : ('A' : Char).val.toNat = 65 := rfl
  have h90 : ('Z' : Char).val.toNat = 90 := rfl
  omega

/-- An acronym has no blank in it. -/
theorem IsAcronym.not_isBlank {a : String} (h : IsAcronym a) :
    ∀ c ∈ a.toList, isBlank c = false := by
  obtain ⟨x, y, hx, hy, rfl⟩ := h
  simp [not_isBlank_of_isUpper hx, not_isBlank_of_isUpper hy]

/-! ## Rows at the front of a text -/

/-- What leads is a row by itself, with the rest behind it. -/
theorem exists_append_of_leads {words : List String} {text rest : List Char}
    (h : Leads words text rest) : ∃ row, text = row ++ rest ∧ Leads words row [] := by
  induction words generalizing text with
  | nil => exact ⟨[], h, rfl⟩
  | cons word words ih =>
    obtain ⟨v, next, hv, rfl, hnext⟩ := h
    obtain ⟨row, rfl, hrow⟩ := ih hnext
    exact ⟨v :: (word.toList ++ row), by simp, v, row, hv, rfl, hrow⟩

theorem leads_append_rest {words : List String} {text rest : List Char} (h : Leads words text rest)
    (more : List Char) : Leads words (text ++ more) (rest ++ more) := by
  induction words generalizing text with
  | nil =>
    rw [show text = rest from h]
    rfl
  | cons word words ih =>
    obtain ⟨v, next, hv, rfl, hnext⟩ := h
    exact ⟨v, next ++ more, hv, by simp, ih hnext⟩

/-- What leads is a row behind a blank. -/
theorem leads_iff_exists_row {word : String} {words : List String} {text rest : List Char} :
    Leads (word :: words) text rest ↔
      ∃ v row, isBlank v = true ∧ text = v :: (row ++ rest) ∧ IsRow (word :: words) row := by
  constructor
  · intro h
    obtain ⟨row, rfl, v, next, hv, rfl, hnext⟩ := exists_append_of_leads h
    exact ⟨v, word.toList ++ next, hv, rfl, next, rfl, hnext⟩
  · rintro ⟨v, row, hv, rfl, next, rfl, hnext⟩
    exact ⟨v, next ++ rest, hv, by simp, leads_append_rest hnext rest⟩

namespace Line

/-! ## Cutting at a mark -/

section

variable {mark : String} {piece rest : List Char}

theorem atSeparator_iff {text : List Char} :
    atSeparator mark text = true ↔ ∃ v w rest, isBlank v = true ∧ isBlank w = true ∧
      text = v :: (mark.toList ++ w :: rest) := by
  rw [atSeparator, Option.isSome_iff_exists]
  constructor
  · rintro ⟨rest, h⟩
    obtain ⟨next, hmark, hblank⟩ := Option.bind_eq_some_iff.mp h
    obtain ⟨v, hv, rfl⟩ := leads_singleton.mp (takeMark?_eq_some_iff.mp hmark)
    obtain ⟨w, hw, rfl⟩ := takeBlank?_eq_some_iff.mp hblank
    exact ⟨v, w, rest, hv, hw, rfl⟩
  · rintro ⟨v, w, rest, hv, hw, rfl⟩
    exact ⟨rest, Option.bind_eq_some_iff.mpr ⟨w :: rest,
      takeMark?_eq_some_iff.mpr (leads_singleton.mpr ⟨v, hv, rfl⟩),
      takeBlank?_eq_some_iff.mpr ⟨w, hw, rfl⟩⟩⟩

/-- A character at which no separator begins belongs to the piece. -/
theorem cutAtMark_cons {c : Char} (h : atSeparator mark (c :: rest) = false) :
    cutAtMark mark piece 0 (c :: rest) = cutAtMark mark (c :: piece) 0 rest := by
  rw [cutAtMark, h]
  rfl

theorem cutAtMark_skip (skipped : List Char) :
    cutAtMark mark piece skipped.length (skipped ++ rest) = cutAtMark mark piece 0 rest := by
  induction skipped with
  | nil => rfl
  | cons c skipped ih => exact ih

/-- A separator ends the piece. -/
theorem cutAtMark_separator {v w : Char} (hv : isBlank v = true) (hw : isBlank w = true) :
    cutAtMark mark piece 0 (v :: (mark.toList ++ w :: rest)) =
      piece.reverse :: cutAtMark mark [] 0 rest := by
  have hat : atSeparator mark (v :: (mark.toList ++ w :: rest)) = true :=
    atSeparator_iff.mpr ⟨v, w, rest, hv, hw, rfl⟩
  have hskip : cutAtMark mark [] (mark.toList ++ [w]).length (mark.toList ++ [w] ++ rest) =
      cutAtMark mark [] 0 rest := cutAtMark_skip _
  rw [List.length_append, String.length_toList, List.append_assoc] at hskip
  rw [cutAtMark, if_pos hat]
  exact congrArg (List.cons _) hskip

/-- A word without blanks belongs to the piece. -/
theorem cutAtMark_word {word : List Char} (h : ∀ c ∈ word, isBlank c = false) :
    cutAtMark mark piece 0 (word ++ rest) = cutAtMark mark (word.reverse ++ piece) 0 rest := by
  induction word generalizing piece with
  | nil => rfl
  | cons c word ih =>
    obtain ⟨hc, hword⟩ := List.forall_mem_cons.mp h
    have hno : atSeparator mark (c :: (word ++ rest)) = false := by
      rw [← Bool.not_eq_true, atSeparator_iff]
      rintro ⟨v, w, next, hv, -, heq⟩
      obtain ⟨rfl, -⟩ := List.cons.inj heq
      exact Bool.false_ne_true (hc.symm.trans hv)
    rw [List.cons_append, cutAtMark_cons hno, ih hword]
    simp

/-- A word that is no mark to cut at: it begins otherwise, and has no blank in it. -/
structure PassesBy (mark word : String) : Prop where
  head_ne : ∃ c d, word.toList.head? = some c ∧ mark.toList.head? = some d ∧ c ≠ d
  not_blank : ∀ c ∈ word.toList, isBlank c = false

/-- A row of such words belongs to the piece. -/
theorem cutAtMark_row {words : List String} (hwords : ∀ word ∈ words, PassesBy mark word)
    {row : List Char} (h : Leads words row []) :
    cutAtMark mark piece 0 (row ++ rest) = cutAtMark mark (row.reverse ++ piece) 0 rest := by
  induction words generalizing row piece with
  | nil =>
    rw [show row = [] from h]
    rfl
  | cons word words ih =>
    obtain ⟨hword, hwords⟩ := List.forall_mem_cons.mp hwords
    obtain ⟨v, next, hv, rfl, hnext⟩ := h
    have hno : atSeparator mark (v :: (word.toList ++ (next ++ rest))) = false := by
      rw [← Bool.not_eq_true, atSeparator_iff]
      rintro ⟨v', w, next', -, -, heq⟩
      obtain ⟨c, d, hc, hd, hne⟩ := hword.head_ne
      have hhead := congrArg List.head? (List.cons.inj heq).2
      simp only [List.head?_append, hc, hd, Option.some_or, Option.some.injEq] at hhead
      exact hne hhead
    rw [List.cons_append, List.append_assoc, cutAtMark_cons hno,
      cutAtMark_word hword.not_blank, ih hwords hnext]
    simp

/-- Accounts behind marks are what the marks divide. -/
theorem cutAtMark_members {as : List String} (has : ∀ a ∈ as, IsAcronym a) {text : List Char}
    (h : Leads (as.flatMap fun a => [mark, a]) text []) :
    cutAtMark mark piece 0 text = piece.reverse :: as.map String.toList := by
  induction as generalizing text piece with
  | nil =>
    rw [show text = [] from h]
    rfl
  | cons a as ih =>
    obtain ⟨ha, has⟩ := List.forall_mem_cons.mp has
    obtain ⟨v, next, hv, rfl, w, more, hw, rfl, hmore⟩ := h
    rw [cutAtMark_separator hv hw, cutAtMark_word ha.not_isBlank, ih has hmore]
    simp

end

/-! ## Dividing parties -/

variable {sender recipient : String} {sharers chain : List String}

theorem passesBy_arrow_of_mem (hsharers : ∀ a ∈ sharers, IsAcronym a) :
    ∀ word ∈ sharers.flatMap (fun a => [":", a]), PassesBy "->" word := by
  intro word hword
  obtain ⟨a, ha, hword⟩ := List.mem_flatMap.mp hword
  rcases List.mem_pair.mp hword with rfl | rfl
  · exact ⟨⟨':', '-', rfl, rfl, by decide⟩, by simp [show isBlank ':' = false by decide]⟩
  · obtain ⟨x, y, hx, -, rfl⟩ := hsharers word ha
    refine ⟨⟨x, '-', by simp, rfl, ?_⟩, (hsharers _ ha).not_isBlank⟩
    rintro rfl
    cases hx

/-- Cutting a row at the arrows leaves the recipients, behind a piece that the colons divide into
those who share. -/
theorem exists_splitAtMark (hsender : IsAcronym sender) (hsharers : ∀ a ∈ sharers, IsAcronym a)
    (hrecipients : ∀ a ∈ recipient :: chain, IsAcronym a) {parties : List Char}
    (h : IsRow (partyWords sender sharers recipient chain) parties) :
    ∃ senders, splitAtMark "->" parties = senders :: (recipient :: chain).map String.toList ∧
      splitAtMark ":" senders = (sender :: sharers).map String.toList := by
  obtain ⟨next, rfl, hnext⟩ := h
  obtain ⟨more, hsharersText, hrecipientsText⟩ := leads_append.mp hnext
  obtain ⟨row, rfl, hrow⟩ := exists_append_of_leads hsharersText
  refine ⟨sender.toList ++ row, ?_, ?_⟩
  · rw [splitAtMark, cutAtMark_word hsender.not_isBlank,
      cutAtMark_row (passesBy_arrow_of_mem hsharers) hrow,
      cutAtMark_members hrecipients hrecipientsText]
    simp
  · rw [splitAtMark, cutAtMark_word hsender.not_isBlank, cutAtMark_members hsharers hrow]
    simp

/-- Dividing a row gives its acronyms in the order in which they stand there. -/
theorem splitParties?_eq (hsender : IsAcronym sender) (hsharers : ∀ a ∈ sharers, IsAcronym a)
    (hrecipients : ∀ a ∈ recipient :: chain, IsAcronym a) {parties : List Char}
    (h : IsRow (partyWords sender sharers recipient chain) parties) :
    splitParties? parties = some ((sender, sharers), recipient, chain) := by
  obtain ⟨senders, harrows, hcolons⟩ := exists_splitAtMark hsender hsharers hrecipients h
  rw [List.map_cons] at harrows hcolons
  unfold splitParties?
  rw [harrows]
  dsimp only
  rw [hcolons]
  simp [Function.comp_def]

/-! ## Taking parties -/

/-- What was taken is the text without the rest. -/
theorem take_of_rest (taken rest : List Char) :
    (taken ++ rest).take ((taken ++ rest).length - rest.length) = taken := by
  rw [List.length_append, Nat.add_sub_cancel, List.take_left]

/-- The parties of an invoice are taken as far as they go. -/
theorem takeParties?_eq_some_iff {text parties rest : List Char} :
    takeParties? text = some (parties, rest) ↔ ∃ sender sharers recipient chain,
      IsAcronym sender ∧ (∀ a ∈ sharers, IsAcronym a) ∧
      (∀ a ∈ recipient :: chain, IsAcronym a) ∧
      IsRow (partyWords sender sharers recipient chain) parties ∧
      text = parties ++ rest ∧ takeMember? "->" rest = none := by
  constructor
  · intro h
    obtain ⟨⟨sender, t₁⟩, hsender, h⟩ := Option.bind_eq_some_iff.mp h
    obtain ⟨sharers, t₂, hsharers⟩ : ∃ sharers t₂, takeSharers t₁ = (sharers, t₂) := ⟨_, _, rfl⟩
    obtain ⟨recipients, t₃, hrecipients⟩ :
        ∃ recipients t₃, takeRecipients t₂ = (recipients, t₃) := ⟨_, _, rfl⟩
    simp only [hsharers, hrecipients] at h
    cases recipients with
    | nil => cases h
    | cons recipient chain =>
      cases h
      obtain ⟨hacronym, htext⟩ := takeAcronym?_eq_some_iff.mp hsender
      obtain ⟨hacronyms, hsharersText, -⟩ := takesMembers_takeSharers.eq_iff.mp hsharers
      obtain ⟨hacronyms', hrecipientsText, hend⟩ :=
        takesMembers_takeRecipients.eq_iff.mp hrecipients
      obtain ⟨row, rfl, hrow⟩ :=
        exists_append_of_leads (leads_append.mpr ⟨t₂, hsharersText, hrecipientsText⟩)
      rw [← List.append_assoc] at htext
      rw [htext, take_of_rest]
      exact ⟨sender, sharers, recipient, chain, hacronym, hacronyms, hacronyms',
        ⟨row, rfl, hrow⟩, rfl, hend⟩
  · rintro ⟨sender, sharers, recipient, chain, hsender, hsharers, hrecipients,
      ⟨row, rfl, hrow⟩, rfl, hend⟩
    obtain ⟨t₂, hsharersText, hrecipientsText⟩ :=
      leads_append.mp (leads_append_rest hrow rest)
    rw [List.nil_append] at hrecipientsText
    -- The arrow ends the accounts that share.
    have harrow : takeMember? ":" t₂ = none :=
      takeMember?_eq_none_of_leads hrecipientsText rfl rfl (by decide)
    have hacronym : takeAcronym? (sender.toList ++ row ++ rest) = some (sender, row ++ rest) :=
      takeAcronym?_eq_some_iff.mpr ⟨hsender, List.append_assoc ..⟩
    unfold takeParties?
    simp only [Option.bind_eq_bind, hacronym, Option.bind_some,
      takesMembers_takeSharers.eq_iff.mpr ⟨hsharers, hsharersText, harrow⟩,
      takesMembers_takeRecipients.eq_iff.mpr ⟨hrecipients, hrecipientsText, hend⟩, take_of_rest]
    rfl

end Line

end HouseLedger
