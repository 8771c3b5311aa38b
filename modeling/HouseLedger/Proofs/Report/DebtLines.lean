import HouseLedger.Proofs.Report.Lines

/-!
# Debts read back from a statement

The line of a debt has two names with an arrow between them, filled up to a column, and an amount
behind. Names are free text that nothing quotes, and what is too long for its column runs into the
amount. So a line can be read back as far as the names allow:

1. two lines are the same exactly if their cents are, and what is in front of the one amount is in
   front of the other, but for digits that one line has in a name and the other in its amount
   (`Report.LooksLike`, `Report.looksLike_iff`);
2. what is outstanding in two statements reads the same exactly if the debts do, one by one
   (`Report.OutstandingShape.ofLines_eq_iff`);
3. names are plain if no two are the same, none has an arrow inside, ends in a blank, or ends in a
   digit right in front of an amount (`Registry.PlainNames`). Between plain names, only the same
   debts read alike (`Debt.ReadsLike.isSame`).

`Ledger.statement_legible` says so of statements on ledgers. Names that are not plain do collide:
`Ledger.exists_illegible_debts` has opposite debts that read the same.
-/

namespace HouseLedger

open Outcome

/-! ## Texts taken apart -/

section

variable {α : Type} {a : α} {x y z w : List α}

/-- A list is divided at an element in one way, or the element stands there again. -/
theorem append_cons_eq_append_cons (h : x ++ a :: z = y ++ a :: w) :
    (x = y ∧ z = w) ∨ (a ∈ y ∧ a ∈ z) ∨ a ∈ x ∧ a ∈ w := by
  rcases List.append_eq_append_iff.mp h with ⟨between, rfl, hz⟩ | ⟨between, rfl, hw⟩
  · cases between with
    | nil => exact .inl (by simpa using hz)
    | cons b between =>
      obtain ⟨rfl, rfl⟩ := List.cons_eq_cons.mp hz
      exact .inr (.inl (by simp))
  · cases between with
    | nil => exact .inl (by simpa [eq_comm] using hw)
    | cons b between =>
      obtain ⟨rfl, rfl⟩ := List.cons_eq_cons.mp hw
      exact .inr (.inr (by simp))

/-- Lists that go on alike, from an element on that they do not have, are equal. -/
theorem append_append_inj {middle : List α} (hmiddle : a ∈ middle) (hx : a ∉ x) (hy : a ∉ y) :
    x ++ (middle ++ z) = y ++ (middle ++ w) ↔ x = y ∧ z = w := by
  constructor
  · intro h
    obtain ⟨front, back, rfl, hfront⟩ := List.eq_append_cons_of_mem hmiddle
    have hdivided : (x ++ front) ++ a :: (back ++ z) = (y ++ front) ++ a :: (back ++ w) := by
      simpa using h
    obtain ⟨hxy, hzw⟩ := (append_cons_eq_append_cons hdivided).resolve_right (by simp [*])
    exact ⟨List.append_cancel_right hxy, List.append_cancel_left hzw⟩
  · rintro ⟨rfl, rfl⟩
    rfl

end

/-- Two ways to divide a text differ by what is between them. -/
theorem append_eq_append {s t u v : String} :
    s ++ t = u ++ v ↔ ∃ w, u = s ++ w ∧ t = w ++ v ∨ s = u ++ w ∧ v = w ++ t := by
  constructor
  · intro h
    have hlist : s.toList ++ t.toList = u.toList ++ v.toList := by
      rw [← String.toList_append, h, String.toList_append]
    rcases List.append_eq_append_iff.mp hlist with ⟨w, hu, ht⟩ | ⟨w, hs, hv⟩
    · refine ⟨String.ofList w, .inl ⟨String.toList_inj.mp ?_, String.toList_inj.mp ?_⟩⟩
      · simpa using hu
      · simpa using ht
    · refine ⟨String.ofList w, .inr ⟨String.toList_inj.mp ?_, String.toList_inj.mp ?_⟩⟩
      · simpa using hs
      · simpa using hv
  · rintro ⟨w, ⟨rfl, rfl⟩ | ⟨rfl, rfl⟩⟩
    · exact (String.append_assoc ..).symm
    · exact String.append_assoc ..

/-! ## Amounts behind names -/

namespace Amount

theorem centsText_eq_iff {m n : ℕ} : centsText m = centsText n ↔ m % 100 = n % 100 := by
  refine ⟨mod_eq_of_centsText_eq, fun h => ?_⟩
  have hones : m % 10 = n % 10 := by omega
  rw [centsText, centsText, h, hones]

end Amount

namespace Report

/-- Two texts and the cents behind them give one line: what ends the one text is the front of the
other's amount. -/
def LooksLike (text : String) (cents : ℕ) (text' : String) (cents' : ℕ) : Prop :=
  cents % 100 = cents' % 100 ∧ ∃ digits,
    text' = text ++ digits ∧ Nat.repr (cents / 100) = digits ++ Nat.repr (cents' / 100) ∨
    text = text' ++ digits ∧ Nat.repr (cents' / 100) = digits ++ Nat.repr (cents / 100)

/-- The last point of a text with an amount is that of the amount. -/
theorem append_writeCents_eq_iff {text text' : String} {m n : ℕ} :
    text ++ Amount.writeCents m = text' ++ Amount.writeCents n ↔
      m % 100 = n % 100 ∧ text ++ Nat.repr (m / 100) = text' ++ Nat.repr (n / 100) := by
  rw [← String.toList_inj, ← String.toList_inj, ← Amount.centsText_eq_iff]
  simp only [String.toList_append, Amount.toList_writeCents, Nat.toList_repr]
  constructor
  · intro h
    rw [← List.append_assoc, ← List.append_assoc] at h
    have hpoint := Amount.point_notMem_centsText
    obtain ⟨hfront, hcents⟩ := (append_cons_eq_append_cons h).resolve_right (by simp [hpoint])
    exact ⟨hcents, hfront⟩
  · rintro ⟨hcents, hfront⟩
    rw [← List.append_assoc, ← List.append_assoc, hfront, hcents]

theorem looksLike_iff {text text' : String} {m n : ℕ} :
    LooksLike text m text' n ↔ text ++ Amount.writeCents m = text' ++ Amount.writeCents n := by
  rw [append_writeCents_eq_iff, append_eq_append, LooksLike]

/-- Twelve francs behind a name, and two behind a name that ends in the other digit. -/
example : LooksLike "Anna -> Bert" 1205 "Anna -> Bert1" 205 :=
  ⟨by decide, "1", .inl ⟨by decide, by decide⟩⟩

/-- The two names of a debt, filled up to the column of the amounts. -/
def partiesText (debtor creditor : Account) : String :=
  fillTo amountColumn (debtor.name ++ " -> " ++ creditor.name)

variable {r : Registry} {currency : String}

theorem debtLine_eq_ok {d : Debt} {line : String} (h : debtLine r currency d = .ok line) :
    ∃ debtor creditor, r.get d.debtor = .ok debtor ∧ r.get d.creditor = .ok creditor ∧
      line = partiesText debtor creditor ++ Amount.writeCents d.amount.hundredths ++
        (" " ++ currency) := by
  unfold debtLine at h
  obtain ⟨debtor, hdebtor, h⟩ := bind_eq_ok.mp h
  obtain ⟨creditor, hcreditor, h⟩ := bind_eq_ok.mp h
  obtain ⟨amount, hamount, h⟩ := bind_eq_ok.mp h
  obtain ⟨-, -, rfl⟩ := Amount.display_eq_ok_iff.mp hamount
  refine ⟨debtor, creditor, hdebtor, hcreditor, (Except.ok.inj h).symm.trans ?_⟩
  simp only [partiesText, toString, String.append_assoc]

theorem oneLine_debtText (hr : r.OnLines) {debtor creditor : Account} {i j : ℤ}
    (hdebtor : r.get i = .ok debtor) (hcreditor : r.get j = .ok creditor) (cents : ℕ) :
    OneLine (partiesText debtor creditor ++ Amount.writeCents cents) := by
  simp +decide [partiesText, oneLine_append, oneLine_fillTo, Amount.oneLine_writeCents,
    (hr _ (Registry.mem_of_get hdebtor)).2, (hr _ (Registry.mem_of_get hcreditor)).2]

end Report

/-- Between the accounts of a registry, the lines of the two debts are the same. -/
def Debt.ReadsLike (r : Registry) (d d' : Debt) : Prop :=
  ∃ debtor creditor debtor' creditor',
    r.get d.debtor = .ok debtor ∧ r.get d.creditor = .ok creditor ∧
    r.get d'.debtor = .ok debtor' ∧ r.get d'.creditor = .ok creditor' ∧
    Report.LooksLike (Report.partiesText debtor creditor) d.amount.hundredths
      (Report.partiesText debtor' creditor') d'.amount.hundredths

theorem Debt.readsLike_iff {r : Registry} {d d' : Debt}
    {debtor creditor debtor' creditor' : Account} (hdebtor : r.get d.debtor = .ok debtor)
    (hcreditor : r.get d.creditor = .ok creditor) (hdebtor' : r.get d'.debtor = .ok debtor')
    (hcreditor' : r.get d'.creditor = .ok creditor') :
    d.ReadsLike r d' ↔ Report.LooksLike (Report.partiesText debtor creditor) d.amount.hundredths
      (Report.partiesText debtor' creditor') d'.amount.hundredths := by
  constructor
  · rintro ⟨_, _, _, _, h₁, h₂, h₃, h₄, hlooks⟩
    rwa [ok_unique hdebtor h₁, ok_unique hcreditor h₂, ok_unique hdebtor' h₃,
      ok_unique hcreditor' h₄]
  · exact fun hlooks => ⟨_, _, _, _, hdebtor, hcreditor, hdebtor', hcreditor', hlooks⟩

namespace Report

/-! ## Lists of debts -/

variable {r : Registry} {currency : String}

theorem toList_ofLines_cons (line : String) (lines : List String) :
    (ofLines (line :: lines)).toList = line.toList ++ '\n' :: (ofLines lines).toList := by
  simp [ofLines]

theorem ofLines_cons_ne (line : String) (lines : List String) :
    ofLines (line :: lines) ≠ ofLines [] := by
  intro h
  have hlist := congrArg String.toList h
  rw [toList_ofLines_cons] at hlist
  exact List.append_ne_nil_of_right_ne_nil _ (List.cons_ne_nil _ _) hlist

theorem ofLines_append (lines lines' : List String) :
    ofLines (lines ++ lines') = ofLines lines ++ ofLines lines' := by
  simp [ofLines]

/-- The first of many debts can be told from the others. -/
theorem ofLines_cons_eq_iff (hr : r.OnLines) {d d' : Debt} {line line' : String}
    (hline : debtLine r currency d = .ok line) (hline' : debtLine r currency d' = .ok line')
    {lines lines' : List String} :
    ofLines (line :: lines) = ofLines (line' :: lines') ↔
      d.ReadsLike r d' ∧ ofLines lines = ofLines lines' := by
  obtain ⟨debtor, creditor, hdebtor, hcreditor, rfl⟩ := debtLine_eq_ok hline
  obtain ⟨debtor', creditor', hdebtor', hcreditor', rfl⟩ := debtLine_eq_ok hline'
  -- The currency may hold line feeds, but what stands in front of it does not.
  have hcut := append_append_inj (a := '\n') (z := (ofLines lines).toList)
    (w := (ofLines lines').toList) (by simp : '\n' ∈ (" " ++ currency).toList ++ ['\n'])
    (oneLine_debtText hr hdebtor hcreditor d.amount.hundredths)
    (oneLine_debtText hr hdebtor' hcreditor' d'.amount.hundredths)
  simp only [List.append_assoc, List.singleton_append, String.toList_inj] at hcut
  rw [Debt.readsLike_iff hdebtor hcreditor hdebtor' hcreditor', looksLike_iff,
    ← String.toList_inj, toList_ofLines_cons, toList_ofLines_cons,
    String.toList_append (t := " " ++ currency), String.toList_append (t := " " ++ currency),
    List.append_assoc, List.append_assoc, hcut]

theorem Shows.ofLines_eq_iff (hr : r.OnLines) {ds ds' : List Debt} {lines lines' : List String}
    (h : Shows (debtLine r currency) ds lines) (h' : Shows (debtLine r currency) ds' lines') :
    ofLines lines = ofLines lines' ↔ List.Forall₂ (Debt.ReadsLike r) ds ds' := by
  induction h generalizing ds' lines' with
  | nil =>
    cases h' with
    | nil => exact iff_of_true rfl .nil
    | cons _ _ => exact iff_of_false (ofLines_cons_ne _ _).symm (by simp)
  | cons hline _ ih =>
    cases h' with
    | nil => exact iff_of_false (ofLines_cons_ne _ _) (by simp)
    | cons hline' hrest' =>
      rw [ofLines_cons_eq_iff hr hline hline', List.forall₂_cons, ih hrest']

theorem Shows.ofLines_ne_dash {ds : List Debt} {lines : List String}
    (h : Shows (debtLine r currency) ds lines) : ofLines lines ≠ ofLines ["-"] := by
  intro hdash
  cases h with
  | nil => exact absurd hdash (by decide)
  | cons hline _ =>
    have hlength := congrArg List.length (congrArg String.toList hdash)
    rw [toList_ofLines_cons, toList_ofLines_cons, List.length_append, String.length_toList]
      at hlength
    have hwide := amountColumn_le_length_debtLine hline
    simp [ofLines, amountColumn] at hlength hwide
    omega

/-- What is outstanding in two statements is the same as text exactly if the debts read alike, one
by one. -/
theorem OutstandingShape.ofLines_eq_iff (hr : r.OnLines) {ds ds' : List Debt}
    {lines lines' : List String} (h : OutstandingShape r currency ds lines)
    (h' : OutstandingShape r currency ds' lines') :
    ofLines lines = ofLines lines' ↔ List.Forall₂ (Debt.ReadsLike r) ds ds' := by
  by_cases hds : ds = []
  · rw [h.dash_iff.mpr hds, hds, List.forall₂_nil_left_iff]
    by_cases hds' : ds' = []
    · rw [h'.dash_iff.mpr hds']
      exact iff_of_true rfl hds'
    · exact iff_of_false (h'.shows hds').ofLines_ne_dash.symm hds'
  · by_cases hds' : ds' = []
    · rw [h'.dash_iff.mpr hds', hds', List.forall₂_nil_right_iff]
      exact iff_of_false (h.shows hds).ofLines_ne_dash hds
    · exact (h.shows hds).ofLines_eq_iff hr (h'.shows hds')

/-- A statement changes with its debts only in what is outstanding. -/
theorem exists_front {s : Statement} {shown : String}
    (h : statement s r currency = .ok shown) :
    ∃ front, ∀ ds, statement { s with outstanding := ds } r currency =
      ds.mapM (debtLine r currency) >>= fun lines =>
        .ok (ofLines front ++ ofLines (if ds.isEmpty then ["-"] else lines)) := by
  unfold statement statementLines at h
  obtain ⟨_, hlines, -⟩ := bind_eq_ok.mp h
  obtain ⟨toPay, htoPay, hlines⟩ := bind_eq_ok.mp hlines
  obtain ⟨credited, hcredited, hlines⟩ := bind_eq_ok.mp hlines
  obtain ⟨paid, hpaid, hlines⟩ := bind_eq_ok.mp hlines
  obtain ⟨received, hreceived, -⟩ := bind_eq_ok.mp hlines
  refine ⟨[title s] ++ toPay ++ credited ++ paid ++ received ++ ["", "Outstanding:"], fun ds => ?_⟩
  unfold statement statementLines
  rw [htoPay, bind_ok, hcredited, bind_ok, hpaid, bind_ok, hreceived, bind_ok]
  cases ds.mapM (debtLine r currency) with
  | error fault => rfl
  | ok lines => exact congrArg Except.ok (ofLines_append _ _)

end Report

/-! ## Plain names -/

/-- The name ends in the character. -/
def Account.EndsIn (a : Account) (c : Char) : Prop := a.name.toList.getLast? = some c

/-- Names that keep apart: no two are the same, none has an arrow inside or ends in a blank, and one
that ends in a digit leaves the column of the names to itself. -/
structure Registry.PlainNames (r : Registry) : Prop where
  distinct : (r.accounts.map (·.name)).Nodup
  arrow : ∀ a ∈ r.accounts, ¬ " -> ".toList <:+: (a.name ++ " ").toList
  blank : ∀ a ∈ r.accounts, ¬ a.EndsIn ' '
  digit : ∀ a ∈ r.accounts, ∀ c, a.EndsIn c → c.isDigit = true →
    ∀ b ∈ r.accounts, (b.name ++ " -> " ++ a.name).length ≤ Report.amountColumn

namespace Report

/-- An arrow that comes behind more text is inside of it, or else ends one place behind. -/
theorem arrow_isInfix {x y z z' : List Char} (hy : y ≠ [])
    (h : " -> ".toList ++ z = y ++ (" -> ".toList ++ z')) :
    " -> ".toList <:+: (x ++ y) ++ [' '] := by
  have harrow : " -> ".toList = [' ', '-', '>', ' '] := rfl
  rw [harrow] at h ⊢
  rcases y with _ | ⟨_, _ | ⟨_, _ | ⟨_, _ | ⟨_, y⟩⟩⟩⟩
  · exact absurd rfl hy
  · simp at h
  · simp at h
  · simp only [List.cons_append, List.nil_append, List.cons.injEq] at h
    obtain ⟨rfl, rfl, rfl, -⟩ := h
    exact ⟨x, [], by simp⟩
  · simp only [List.cons_append, List.nil_append, List.cons.injEq] at h
    obtain ⟨rfl, rfl, rfl, rfl, -⟩ := h
    exact ⟨x, y ++ [' '], by simp⟩

/-- A text is divided at its first arrow in one way. -/
theorem arrow_inj {x x' z z' : List Char} (hx : ¬ " -> ".toList <:+: x ++ [' '])
    (hx' : ¬ " -> ".toList <:+: x' ++ [' '])
    (h : x ++ (" -> ".toList ++ z) = x' ++ (" -> ".toList ++ z')) : x = x' ∧ z = z' := by
  rcases List.append_eq_append_iff.mp h with ⟨y, rfl, hy⟩ | ⟨y, rfl, hy⟩
  · by_cases hempty : y = []
    · subst hempty
      exact ⟨(List.append_nil x).symm, List.append_cancel_left hy⟩
    · exact absurd (arrow_isInfix hempty hy) hx'
  · by_cases hempty : y = []
    · subst hempty
      exact ⟨List.append_nil x', (List.append_cancel_left hy).symm⟩
    · exact absurd (arrow_isInfix hempty hy) hx

/-- Blanks behind a text can be told from it if it does not end in one. -/
theorem append_replicate_inj {x y : List Char} {m n : ℕ} (hy : y.getLast? ≠ some ' ')
    (hle : x.length ≤ y.length)
    (h : x ++ List.replicate m ' ' = y ++ List.replicate n ' ') : x = y := by
  obtain ⟨z, rfl⟩ : x <+: y :=
    List.prefix_of_prefix_length_le (List.prefix_append x _) (h ▸ List.prefix_append y _) hle
  rw [List.append_assoc, List.append_cancel_left_eq] at h
  rcases List.eq_nil_or_concat z with rfl | ⟨z, c, rfl⟩
  · exact (List.append_nil x).symm
  · have hc : c ∈ List.replicate m ' ' := by simp [h]
    rw [List.eq_of_mem_replicate hc] at hy
    simp at hy

/-- Texts that do not end in a blank can be read under what fills them up. -/
theorem fillTo_inj {width : ℕ} {text text' : String} (h : text.toList.getLast? ≠ some ' ')
    (h' : text'.toList.getLast? ≠ some ' ') (heq : fillTo width text = fillTo width text') :
    text = text' := by
  rw [← String.toList_inj] at heq ⊢
  simp only [fillTo, String.toList_append, String.toList_ofList] at heq
  rcases le_total text.toList.length text'.toList.length with hle | hle
  · exact append_replicate_inj h' hle heq
  · exact (append_replicate_inj h hle heq.symm).symm

/-- What ends in a blank cannot. -/
example : fillTo amountColumn "Anna -> Bert" = fillTo amountColumn "Anna -> Bert " := by decide

/-- Digits that stand behind a text that was filled up end the other text. -/
theorem endsIn_digit_of_fillTo_eq {text text' digits : String} {width : ℕ}
    (hdigits : ∀ c ∈ digits.toList, c.isDigit = true) (hne : digits ≠ "")
    (h : fillTo width text' = fillTo width text ++ digits) :
    width < text'.length ∧ ∃ c, text'.toList.getLast? = some c ∧ c.isDigit = true := by
  have hne' : digits.toList ≠ [] := mt String.toList_eq_nil_iff.mp hne
  have hpos : 0 < digits.length := String.length_toList ▸ List.length_pos_iff.mpr hne'
  have hlength := congrArg String.length h
  simp only [fillTo, String.length_append, String.length_ofList, List.length_replicate] at hlength
  have hwide : width < text'.length := by omega
  have htext : text' = fillTo width text ++ digits := by
    rw [← h, fillTo, Nat.sub_eq_zero_of_le hwide.le]
    simp
  have hlast := List.getLast?_eq_some_getLast hne'
  refine ⟨hwide, _, ?_, hdigits _ (List.getLast_mem hne')⟩
  rw [htext, String.toList_append, List.getLast?_append, hlast, Option.some_or]

section

variable {r : Registry} {debtor creditor debtor' creditor' : Account}

theorem getLast?_parties (debtor : Account) (hname : creditor.name ≠ "") :
    (debtor.name ++ " -> " ++ creditor.name).toList.getLast? = creditor.name.toList.getLast? := by
  have hne : creditor.name.toList ≠ [] := mt String.toList_eq_nil_iff.mp hname
  rw [String.toList_append, List.getLast?_append, List.getLast?_eq_some_getLast hne, Option.some_or]

variable (hr : r.PlainNames) (hnames : ∀ a ∈ r.accounts, a.name ≠ "")
  (hdebtor : debtor ∈ r.accounts) (hcreditor : creditor ∈ r.accounts)
  (hdebtor' : debtor' ∈ r.accounts) (hcreditor' : creditor' ∈ r.accounts)

include hr hnames hdebtor' hcreditor' in
/-- No digits of an amount can be taken for the end of a plain name. -/
theorem eq_empty_of_partiesText_eq {text digits : String} {m n : ℕ}
    (htext : partiesText debtor' creditor' = fillTo amountColumn text ++ digits)
    (hunits : Nat.repr m = digits ++ Nat.repr n) : digits = "" := by
  by_contra hne
  have hdigits : ∀ c ∈ digits.toList, c.isDigit = true := by
    intro c hc
    refine Nat.isDigit_of_mem_toDigits (b := 10) (n := m) (by decide) (by decide) ?_
    rw [← Nat.toList_repr, hunits, String.toList_append]
    exact List.mem_append_left _ hc
  obtain ⟨hwide, c, hlast, hc⟩ := endsIn_digit_of_fillTo_eq hdigits hne htext
  rw [getLast?_parties debtor' (hnames _ hcreditor')] at hlast
  exact absurd (hr.digit creditor' hcreditor' c hlast hc debtor' hdebtor') (not_le.mpr hwide)

include hr hnames hdebtor hcreditor hdebtor' hcreditor' in
/-- Plain names in front of amounts can be told from how they look. -/
theorem names_eq_of_partiesText_eq
    (h : partiesText debtor creditor = partiesText debtor' creditor') :
    debtor.name = debtor'.name ∧ creditor.name = creditor'.name := by
  have hlast : ∀ a ∈ r.accounts, ∀ b ∈ r.accounts,
      (a.name ++ " -> " ++ b.name).toList.getLast? ≠ some ' ' := by
    intro a _ b hb
    rw [getLast?_parties a (hnames b hb)]
    exact hr.blank b hb
  have htexts := fillTo_inj (hlast _ hdebtor _ hcreditor) (hlast _ hdebtor' _ hcreditor') h
  have harrow : ∀ a ∈ r.accounts, ¬ " -> ".toList <:+: a.name.toList ++ [' '] := by
    intro a ha
    have harrow := hr.arrow a ha
    rwa [String.toList_append] at harrow
  simp only [← String.toList_inj, String.toList_append, List.append_assoc] at htexts ⊢
  exact arrow_inj (harrow _ hdebtor) (harrow _ hdebtor') htexts

include hr hnames hdebtor hcreditor hdebtor' hcreditor' in
theorem LooksLike.eq_of_plainNames {m n : ℕ}
    (h : LooksLike (partiesText debtor creditor) m (partiesText debtor' creditor') n) :
    debtor.name = debtor'.name ∧ creditor.name = creditor'.name ∧ m = n := by
  have hsame : partiesText debtor creditor = partiesText debtor' creditor' := by
    obtain ⟨-, digits, ⟨htext, hunits⟩ | ⟨htext, hunits⟩⟩ := h
    · rw [htext, eq_empty_of_partiesText_eq hr hnames hdebtor' hcreditor' htext hunits,
        String.append_empty]
    · rw [htext, eq_empty_of_partiesText_eq hr hnames hdebtor hcreditor htext hunits,
        String.append_empty]
  obtain ⟨hdebtors, hcreditors⟩ :=
    names_eq_of_partiesText_eq hr hnames hdebtor hcreditor hdebtor' hcreditor' hsame
  rw [looksLike_iff, hsame, String.append_right_inj] at h
  exact ⟨hdebtors, hcreditors, Amount.writeCents_inj h⟩

end

end Report

/-! ## Debts that read alike -/

namespace Debt

/-- A debt of at least a cent, in whole cents, between accounts of the registry. -/
structure IsOpen (r : Registry) (d : Debt) : Prop where
  debtor : ∃ i : ℕ, d.debtor = i ∧ i < r.size
  creditor : ∃ i : ℕ, d.creditor = i ∧ i < r.size
  amount : ∃ cents : ℕ, 0 < cents ∧ d.amount.toRat = cents / 100

/-- The same debtor owes the same creditor the same amount. -/
structure IsSame (d d' : Debt) : Prop where
  debtor : d.debtor = d'.debtor
  creditor : d.creditor = d'.creditor
  amount : d.amount.toRat = d'.amount.toRat

variable {r : Registry} {d d' : Debt}

theorem IsOpen.hundredths_eq (h : d.IsOpen r) :
    (d.amount.hundredths : ℚ) = 100 * d.amount.toRat := by
  obtain ⟨cents, -, hcents⟩ := h.amount
  have hnonneg : 0 ≤ d.amount.toRat := by rw [hcents]; positivity
  have hhundredths : (d.amount.hundredths : ℤ) = cents := by
    rw [Amount.hundredths_of_nonneg hnonneg, hcents, mul_div_cancel₀ _ (by norm_num),
      Int.floor_natCast_add, Int.floor_eq_zero_iff.mpr (by norm_num), add_zero]
  rw [hcents, mul_div_cancel₀ _ (by norm_num)]
  exact_mod_cast hhundredths

theorem IsOpen.exists_accounts (h : d.IsOpen r) : ∃ debtor creditor,
    r.get d.debtor = .ok debtor ∧ r.get d.creditor = .ok creditor := by
  obtain ⟨i, hi, hi'⟩ := h.debtor
  obtain ⟨j, hj, hj'⟩ := h.creditor
  rw [hi, hj]
  exact ⟨_, _, Registry.get_of_getElem? (List.getElem?_eq_getElem hi'),
    Registry.get_of_getElem? (List.getElem?_eq_getElem hj')⟩

theorem IsOpen.presentable (h : d.IsOpen r) : d.Presentable r := by
  obtain ⟨debtor, creditor, hdebtor, hcreditor⟩ := h.exists_accounts
  obtain ⟨cents, -, hcents⟩ := h.amount
  exact ⟨⟨debtor, hdebtor⟩, ⟨creditor, hcreditor⟩, by rw [hcents]; positivity⟩

theorem IsSame.readsLike (hd : d.IsOpen r) (hd' : d'.IsOpen r) (h : d.IsSame d') :
    d.ReadsLike r d' := by
  obtain ⟨debtor, creditor, hdebtor, hcreditor⟩ := hd.exists_accounts
  have hcents : d.amount.hundredths = d'.amount.hundredths := by
    have hsame := hd.hundredths_eq.trans (h.amount ▸ hd'.hundredths_eq.symm)
    exact_mod_cast hsame
  refine ⟨debtor, creditor, debtor, creditor, hdebtor, hcreditor, h.debtor ▸ hdebtor,
    h.creditor ▸ hcreditor, ?_⟩
  rw [Report.looksLike_iff, hcents]

end Debt

/-- Plain names are names of one index each. -/
theorem Registry.PlainNames.index_eq {r : Registry} (hr : r.PlainNames) {a b : Account} {i j : ℤ}
    (hi : ∃ k : ℕ, i = k ∧ k < r.size) (hj : ∃ k : ℕ, j = k ∧ k < r.size)
    (ha : r.get i = .ok a) (hb : r.get j = .ok b) (h : a.name = b.name) : i = j := by
  obtain ⟨m, rfl, hm⟩ := hi
  obtain ⟨n, rfl, hn⟩ := hj
  rw [Registry.get_of_getElem? (List.getElem?_eq_getElem hm), Except.ok.injEq] at ha
  rw [Registry.get_of_getElem? (List.getElem?_eq_getElem hn), Except.ok.injEq] at hb
  subst ha hb
  have hnames : (r.accounts.map (·.name))[m]? = (r.accounts.map (·.name))[n]? := by
    rw [List.getElem?_map, List.getElem?_map, List.getElem?_eq_getElem hm,
      List.getElem?_eq_getElem hn, Option.map_some, Option.map_some, h]
  rw [(List.getElem?_inj (by simpa [size] using hm) hr.distinct).mp hnames]

/-- Between plain names, debts that read alike are the same. -/
theorem Debt.ReadsLike.isSame {r : Registry} (hr : r.PlainNames)
    (hnames : ∀ a ∈ r.accounts, a.name ≠ "") {d d' : Debt} (hd : d.IsOpen r) (hd' : d'.IsOpen r)
    (h : d.ReadsLike r d') : d.IsSame d' := by
  obtain ⟨debtor, creditor, debtor', creditor', hdebtor, hcreditor, hdebtor', hcreditor', hlooks⟩ :=
    h
  obtain ⟨hdebtors, hcreditors, hcents⟩ := hlooks.eq_of_plainNames hr hnames
    (Registry.mem_of_get hdebtor) (Registry.mem_of_get hcreditor)
    (Registry.mem_of_get hdebtor') (Registry.mem_of_get hcreditor')
  refine ⟨hr.index_eq hd.debtor hd'.debtor hdebtor hdebtor' hdebtors,
    hr.index_eq hd.creditor hd'.creditor hcreditor hcreditor' hcreditors, ?_⟩
  have hamounts := hd.hundredths_eq.symm.trans (hcents ▸ hd'.hundredths_eq)
  exact mul_left_cancel₀ (by norm_num) hamounts

/-! ## Statements -/

namespace Ledger

/-- Two statements that differ in their debts alone read the same exactly if the debts read alike,
one by one. Between plain names that is so only if the debts are the same, so that who owes whom
how much can be read back. -/
theorem statement_legible {options : Options} {text currency shown : String} {l : Ledger}
    {s : Statement} {ds : List Debt} (h : ofString options text = .ok l)
    (hs : ∀ d ∈ s.outstanding, d.IsOpen l.accounts) (hds : ∀ d ∈ ds, d.IsOpen l.accounts)
    (hshown : Report.statement s l.accounts currency = .ok shown) :
    FailsIff .centsTooLong (∃ d ∈ ds, d.amount.TooLong)
        (Report.statement { s with outstanding := ds } l.accounts currency) ∧
      ∀ shown', Report.statement { s with outstanding := ds } l.accounts currency = .ok shown' →
        (shown = shown' ↔ List.Forall₂ (Debt.ReadsLike l.accounts) s.outstanding ds) ∧
        (l.accounts.PlainNames →
          (shown = shown' ↔ List.Forall₂ Debt.IsSame s.outstanding ds)) := by
  obtain ⟨front, hfront⟩ := Report.exists_front hshown
  rw [hfront]
  refine ⟨(FailsIff.mapM fun d hd =>
    Report.debtLine_failsIff (hds d hd).presentable currency).map, fun shown' hshown' => ?_⟩
  obtain ⟨lines', hlines', hshown'⟩ := bind_eq_ok.mp hshown'
  obtain ⟨lines, hlines, hshown⟩ := bind_eq_ok.mp ((hfront s.outstanding).symm.trans hshown)
  have hreads : shown = shown' ↔ List.Forall₂ (Debt.ReadsLike l.accounts) s.outstanding ds := by
    rw [← Except.ok.inj hshown, ← Except.ok.inj hshown', String.append_right_inj]
    exact (Report.outstandingShape_of_mapM hlines).ofLines_eq_iff (onLines_of_ofString h)
      (Report.outstandingShape_of_mapM hlines')
  refine ⟨hreads, fun hplain => hreads.trans (forall₂_iff_of_mem fun d hd d' hd' => ?_)⟩
  have hnames : ∀ a ∈ l.accounts.accounts, a.name ≠ "" := fun a ha =>
    ((isWritten_of_ofString h).1 a ha).2.1
  exact ⟨fun hlike => hlike.isSame hplain hnames (hs d hd) (hds d' hd'),
    fun hsame => hsame.readsLike (hs d hd) (hds d' hd')⟩

/-- Anna owes Bert eight francs; a statement that turns this round reads otherwise. -/
theorem statement_legible_gift :
    ∃ l b s shown shown', ofString {} giftText = .ok l ∧ l.balance = .ok b ∧
      Statement.ofAcronym l b "AA" = .ok s ∧ s.outstanding = [⟨0, 1, ⟨false, 800, -2⟩⟩] ∧
      l.accounts.PlainNames ∧ Report.statement s l.accounts "CHF" = .ok shown ∧
      Report.statement { s with outstanding := [⟨1, 0, ⟨false, 800, -2⟩⟩] } l.accounts "CHF" =
        .ok shown' ∧ shown ≠ shown' := by
  have hread : ((ofString {} giftText).toOption.bind fun l => l.balance.toOption.bind fun b =>
      (Statement.ofAcronym l b "AA").toOption.bind fun s =>
        (Report.statement s l.accounts "CHF").toOption.map fun _ =>
          (l.accounts.accounts, s.outstanding)) =
        some ([⟨"AA", "Anna"⟩, ⟨"BB", "Bert"⟩], [⟨0, 1, ⟨false, 800, -2⟩⟩]) := by
    decide +kernel
  obtain ⟨l, hl, hread⟩ := Option.bind_eq_some_iff.mp hread
  obtain ⟨b, hb, hread⟩ := Option.bind_eq_some_iff.mp hread
  obtain ⟨s, hs, hread⟩ := Option.bind_eq_some_iff.mp hread
  obtain ⟨shown, hshown, hread⟩ := Option.map_eq_some_iff.mp hread
  obtain ⟨haccounts, hdebts⟩ := Prod.mk.inj hread
  rw [toOption_eq_some] at hl hb hs hshown
  have hvalue : Decimal.toRat ⟨false, 800, -2⟩ = 800 / 100 := by
    norm_num [Decimal.toRat, Decimal.signed]
  have height : ∃ cents : ℕ, 0 < cents ∧ Decimal.toRat ⟨false, 800, -2⟩ = cents / 100 :=
    ⟨800, by decide, by rw [hvalue]; norm_num⟩
  have hsize : l.accounts.size = 2 := congrArg List.length haccounts
  have hanna : ∃ i : ℕ, (0 : ℤ) = i ∧ i < l.accounts.size := ⟨0, rfl, by omega⟩
  have hbert : ∃ i : ℕ, (1 : ℤ) = i ∧ i < l.accounts.size := ⟨1, rfl, by omega⟩
  have hplain : l.accounts.PlainNames := by
    constructor
    · rw [haccounts]
      decide
    · rw [haccounts]
      decide +kernel
    · rw [haccounts]
      simp [Account.EndsIn]
    · rw [haccounts]
      simp [Account.EndsIn]
  have hopen : ∀ d ∈ s.outstanding, d.IsOpen l.accounts := by
    rw [hdebts, List.forall_mem_singleton]
    exact ⟨hanna, hbert, height⟩
  have hopen' : ∀ d ∈ [(⟨1, 0, ⟨false, 800, -2⟩⟩ : Debt)], d.IsOpen l.accounts := by
    rw [List.forall_mem_singleton]
    exact ⟨hbert, hanna, height⟩
  obtain ⟨hfails, hlegible⟩ := statement_legible hl hopen hopen' hshown
  obtain ⟨shown', hshown'⟩ : ∃ shown', Report.statement
      { s with outstanding := [⟨1, 0, ⟨false, 800, -2⟩⟩] } l.accounts "CHF" = .ok shown' := by
    rw [hfails.exists_iff]
    norm_num [Decimal.TooLong, hvalue]
  refine ⟨l, b, s, shown, shown', hl, hb, hs, hdebts, hplain, hshown, hshown', ?_⟩
  rw [Ne, (hlegible shown' hshown').2 hplain, hdebts, List.forall₂_cons]
  exact fun hsame => absurd hsame.1.debtor (by decide)

/-- A payment with a digit more than decimals keep, from the account with one index to the other. -/
def longPayment (sender recipient : ℤ) : Transaction :=
  ⟨sender, recipient, ⟨false, 99999999999999999999999999985, -3⟩, Balance.septemberFirst, "b",
    .payment⟩

/-- A bill over nothing, so that already the first of the payments is rounded. The name of the
second account has an arrow. -/
def roundingLedger (payments : List Transaction) : Ledger where
  referenceDate := Balance.septemberFirst
  accounts := ⟨[⟨"AA", "A"⟩, ⟨"BB", "A -> A"⟩], true⟩
  invoices := [⟨0, 1, ⟨false, 0, -2⟩, Balance.septemberFirst, "a", .invoice⟩]
  payments := payments

/-- The lines in front of the payments. -/
def roundingText : String :=
  "accounting_date 1.9.2025\naccount AA A\naccount BB A -> A\ninvoice AA -> BB 0.00 1.9.2025 a\n"

/-- Two ledgers with the same payments in another order. The statements of an account have the same
date and sections but opposite debts, and read the same, although no two names do. -/
theorem exists_illegible_debts :
    ∃ l l' b b' s s' shown,
      ofString {} (roundingText ++ "payment AA -> BB 99999999999999999999999999.985 1.9.2025 b\n" ++
        "payment BB -> AA 99999999999999999999999999.985 1.9.2025 b\n") = .ok l ∧
      ofString {} (roundingText ++ "payment BB -> AA 99999999999999999999999999.985 1.9.2025 b\n" ++
        "payment AA -> BB 99999999999999999999999999.985 1.9.2025 b\n") = .ok l' ∧
      l.balance = .ok b ∧ l'.balance = .ok b' ∧ l'.accounts = l.accounts ∧
      (l.accounts.accounts.map (·.name)).Nodup ∧
      Statement.ofAcronym l b "AA" = .ok s ∧ Statement.ofAcronym l' b' "AA" = .ok s' ∧
      s' = { s with outstanding := s'.outstanding } ∧
      s.outstanding = [⟨0, 1, ⟨false, 1, -2⟩⟩] ∧ s'.outstanding = [⟨1, 0, ⟨false, 1, -2⟩⟩] ∧
      Report.statement s l.accounts "CHF" = .ok shown ∧
      Report.statement s' l'.accounts "CHF" = .ok shown := by
  have hreports : ((roundingLedger [longPayment 0 1, longPayment 1 0]).balance.toOption.bind
      fun b => (roundingLedger [longPayment 1 0, longPayment 0 1]).balance.toOption.bind fun b' =>
        (Statement.ofAcronym (roundingLedger [longPayment 0 1, longPayment 1 0]) b
          "AA").toOption.bind fun s =>
        (Statement.ofAcronym (roundingLedger [longPayment 1 0, longPayment 0 1]) b'
          "AA").toOption.bind fun s' =>
        (Report.statement s (roundingLedger []).accounts "CHF").toOption.map fun shown =>
          decide (s' = { s with outstanding := s'.outstanding } ∧
            s.outstanding = [⟨0, 1, ⟨false, 1, -2⟩⟩] ∧ s'.outstanding = [⟨1, 0, ⟨false, 1, -2⟩⟩] ∧
            (Report.statement s' (roundingLedger []).accounts "CHF").toOption = some shown)) =
      some true := by
    decide +kernel
  obtain ⟨b, hb, hreports⟩ := Option.bind_eq_some_iff.mp hreports
  obtain ⟨b', hb', hreports⟩ := Option.bind_eq_some_iff.mp hreports
  obtain ⟨s, hs, hreports⟩ := Option.bind_eq_some_iff.mp hreports
  obtain ⟨s', hs', hreports⟩ := Option.bind_eq_some_iff.mp hreports
  obtain ⟨shown, hshown, hreports⟩ := Option.map_eq_some_iff.mp hreports
  rw [decide_eq_true_iff] at hreports
  obtain ⟨hsections, hdebts, hdebts', hshown'⟩ := hreports
  rw [toOption_eq_some] at hb hb' hs hs' hshown hshown'
  exact ⟨_, _, b, b', s, s', shown, toOption_eq_some.mp (by decide +kernel),
    toOption_eq_some.mp (by decide +kernel), hb, hb', rfl, by decide, hs, hs', hsections, hdebts,
    hdebts', hshown, hshown'⟩

end Ledger

end HouseLedger
