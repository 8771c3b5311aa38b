import HouseLedger.Proofs.Decimal.Error
import HouseLedger.Proofs.Ledger.Contents

/-!
# Where the money of a bill goes

The transfers of a bill hand its amount on from account to account: those who share it owe their
parts to the first recipient, and each recipient owes the whole to the next. So the last recipient
wins the amount, those who share it lose their parts, and all others come out even; only the parts
are rounded (`Draft.sum_gain_sharedOut`). Transfers from an account to itself can be left out, for
nothing is won or lost by them.

A line that is read without merging brings these transfers on each of its dates
(`Ledger.ofString_conserves`).
-/

namespace HouseLedger

open Outcome Text
open Decimal (finestPlace precision)

/-! ## Transfers -/

namespace Transfer

/-- What an account wins by the transfer. -/
def gain (x : ℕ) (t : Transfer) : ℚ :=
  (if t.recipient = x then t.amount.toRat else 0) - if t.sender = x then t.amount.toRat else 0

theorem gain_of_self {t : Transfer} (h : t.sender = t.recipient) (x : ℕ) : t.gain x = 0 := by
  rw [gain, h, sub_self]

/-- The parts of those who share a bill. -/
theorem sum_gain_shares (senders : List ℕ) (recipient x : ℕ) (share : Decimal) :
    ((senders.map (⟨·, recipient, share⟩ : ℕ → Transfer)).map (gain x)).sum =
      (if recipient = x then senders.length * share.toRat else 0) -
        senders.count x * share.toRat := by
  induction senders with
  | nil => simp
  | cons s senders ih =>
    rw [List.map_cons, List.map_cons, List.sum_cons, ih, gain, List.count_cons, List.length_cons]
    by_cases hs : s = x <;> by_cases hr : recipient = x <;> simp [hs, hr] <;> ring

/-- What is handed on along a chain is lost by the first and won by the last of it. -/
theorem sum_gain_chain (recipient x : ℕ) (chain : List ℕ) (total : Decimal) :
    ((((recipient :: chain).zip chain).map fun (a, b) => (⟨a, b, total⟩ : Transfer)).map
        (gain x)).sum =
      (if (recipient :: chain).getLast? = some x then total.toRat else 0) -
        if recipient = x then total.toRat else 0 := by
  induction chain generalizing recipient with
  | nil => simp
  | cons next chain ih =>
    rw [List.zip_cons_cons, List.map_cons, List.map_cons, List.sum_cons, ih, gain,
      List.getLast?_cons_cons]
    ring

end Transfer

namespace Draft

open Transfer (gain sum_gain_shares sum_gain_chain)

/-- The last recipient of a bill wins its amount, and all who share it lose their parts. What a
part is off its exact value is on the account of the first recipient. -/
theorem sum_gain_sharedOut {senders : List ℕ} (hne : senders ≠ []) (chain : List ℕ)
    (recipient x : ℕ) (total : Decimal) :
    ((sharedOut senders recipient chain total).map (gain x)).sum =
      (if (recipient :: chain).getLast? = some x then total.toRat else 0) -
          senders.count x * (total.toRat / senders.length) +
        ((if recipient = x then (senders.length : ℚ) else 0) - senders.count x) *
          ((total.share senders.length).toRat - total.toRat / senders.length) := by
  have hlength : (senders.length : ℚ) ≠ 0 := by
    exact_mod_cast (List.length_pos_of_ne_nil hne).ne'
  rw [sharedOut, transfers, List.map_append, List.sum_append, sum_gain_shares, sum_gain_chain]
  split <;> field_simp <;> ring

/-- No account is off by more than all parts together. -/
theorem abs_sum_gain_sharedOut_sub_le (senders : List ℕ) (hne : senders ≠ []) (chain : List ℕ)
    (recipient x : ℕ) (total : Decimal) :
    |((sharedOut senders recipient chain total).map (gain x)).sum -
        ((if (recipient :: chain).getLast? = some x then total.toRat else 0) -
          senders.count x * (total.toRat / senders.length))| ≤
      senders.length * |(total.share senders.length).toRat - total.toRat / senders.length| := by
  have hcount : (senders.count x : ℚ) ≤ senders.length := by exact_mod_cast List.count_le_length
  have hnonneg : (0 : ℚ) ≤ senders.count x := Nat.cast_nonneg _
  have htimes : |(if recipient = x then (senders.length : ℚ) else 0) - senders.count x| ≤
      senders.length := by
    rw [abs_le]
    split
    · constructor <;> linarith
    · constructor <;> linarith
  rw [sum_gain_sharedOut hne, add_sub_cancel_left, abs_mul]
  exact mul_le_mul_of_nonneg_right htimes (abs_nonneg _)

end Draft

/-! ## Invoices -/

namespace Transaction

/-- The sum of the amounts that an account is to receive. -/
def received (ts : List Transaction) (x : ℤ) : ℚ :=
  ((ts.filter (·.recipient = x)).map (·.amount.toRat)).sum

/-- The sum of the amounts that an account is to give. -/
def given (ts : List Transaction) (x : ℤ) : ℚ :=
  ((ts.filter (·.sender = x)).map (·.amount.toRat)).sum

theorem received_cons (t : Transaction) (ts : List Transaction) (x : ℤ) :
    received (t :: ts) x = (if t.recipient = x then t.amount.toRat else 0) + received ts x := by
  by_cases h : t.recipient = x <;> simp [received, h]

theorem given_cons (t : Transaction) (ts : List Transaction) (x : ℤ) :
    given (t :: ts) x = (if t.sender = x then t.amount.toRat else 0) + given ts x := by
  by_cases h : t.sender = x <;> simp [given, h]

/-- By the invoices of some transfers an account wins what it wins by the transfers, although
those from an account to itself are left out. -/
theorem received_sub_given (note : String) (date : Date) (ts : List Transfer) (x : ℕ) :
    received (ts.filterMap (Transfer.invoice? note date)) x -
        given (ts.filterMap (Transfer.invoice? note date)) x =
      (ts.map (Transfer.gain x)).sum := by
  induction ts with
  | nil => simp [received, given]
  | cons t ts ih =>
    rw [List.map_cons, List.sum_cons, ← ih]
    by_cases hself : t.sender = t.recipient
    · rw [List.filterMap_cons_none (by rw [Transfer.invoice?, if_pos hself]),
        Transfer.gain_of_self hself, zero_add]
    · rw [List.filterMap_cons_some (by rw [Transfer.invoice?, if_neg hself]), received_cons,
        given_cons, Transfer.gain]
      simp only [Nat.cast_inj]
      ring

/-- The transactions of a day. -/
def onDay (ts : List Transaction) (date : Date) : List Transaction := ts.filter (·.date = date)

/-- If the dates of a bill differ, the invoices of a day are its transfers. -/
theorem onDay_flatMap (note : String) (ts : List Transfer) {dates : List Date}
    (hdates : dates.Nodup) {date : Date} (hdate : date ∈ dates) :
    onDay (dates.flatMap (Draft.invoicesOn note ts)) date = Draft.invoicesOn note ts date := by
  have hday : ∀ d, onDay (Draft.invoicesOn note ts d) date =
      if d = date then Draft.invoicesOn note ts d else [] := by
    intro d
    split
    · next h =>
      exact List.filter_eq_self.mpr fun x hx =>
        decide_eq_true ((Draft.date_of_mem_invoicesOn hx).trans h)
    · next h =>
      refine List.filter_eq_nil_iff.mpr fun x hx => ?_
      rw [Draft.date_of_mem_invoicesOn hx, decide_eq_true_iff]
      exact h
  rw [onDay, List.filter_flatMap]
  induction dates with
  | nil => exact absurd hdate List.not_mem_nil
  | cons d dates ih =>
    obtain ⟨hnew, hrest⟩ := List.nodup_cons.mp hdates
    rw [List.flatMap_cons]
    rcases List.mem_cons.mp hdate with rfl | hdate
    · have hnone : (dates.flatMap fun d =>
          (Draft.invoicesOn note ts d).filter (·.date = date)) = [] := by
        rw [List.flatMap_eq_nil_iff]
        intro d hd
        exact (hday d).trans (if_neg fun heq : d = date => hnew (heq ▸ hd))
      rw [hnone, List.append_nil]
      exact (hday date).trans (if_pos rfl)
    · have hother : d ≠ date := fun heq => hnew (heq ▸ hdate)
      rw [ih hrest hdate]
      exact congrArg (· ++ _) ((hday d).trans (if_neg hother))

end Transaction

/-! ## Lines -/

open Transaction (received given onDay)

namespace InvoiceLine

variable {options : Options} {reference : Date} {r : Registry} {l : InvoiceLine}

/-- The dates of an invoice, none if it begins after the reference date. -/
def billingDates (options : Options) (reference : Date) (l : InvoiceLine) :
    Except Fault (List Date) := do
  let start ← l.start.toDate
  let finish ← l.recurrence.mapM fun r => r.1.toDate
  if reference < start then return []
  Recurrence.occurrences start finish (l.recurrence.map fun r => r.2.toPeriod options.legacyYears)
    reference

/-- No date comes twice. -/
theorem nodup_billingDates {dates : List Date}
    (h : l.billingDates options reference = .ok dates) : dates.Nodup := by
  obtain ⟨start, -, h⟩ := bind_eq_ok.mp h
  obtain ⟨finish, -, h⟩ := bind_eq_ok.mp h
  split at h
  · cases h
    exact List.nodup_nil
  · rcases Recurrence.occurrences_cases (l.isForward_of_isEmpty options.legacyYears) h with
      ⟨rfl, -⟩ | ⟨last, p, ds, -, -, hforward, rfl, hrun⟩
    · exact List.nodup_singleton _
    · refine (hrun.isExpansion hforward).increasing.imp fun {a b} hlt heq => ?_
      subst heq
      exact Nat.lt_irrefl _ hlt

/-- The invoices of a line are its transfers, on each of its dates. -/
theorem exists_of_billed {ts : List Transaction} (h : l.billed options reference r = .ok ts) :
    ∃ senders recipient chain dates,
      (l.sender :: l.sharers).mapM r.resolve = .ok senders ∧ senders ≠ [] ∧
      (l.recipient :: l.chain).mapM r.resolve = .ok (recipient :: chain) ∧
      l.billingDates options reference = .ok dates ∧
      ts = dates.flatMap (Draft.invoicesOn l.note
        (Draft.sharedOut senders recipient chain l.amount.toDecimal)) := by
  obtain ⟨senders, hsenders, h⟩ := bind_eq_ok.mp h
  obtain ⟨recipient, hrecipient, h⟩ := bind_eq_ok.mp h
  obtain ⟨chain, hchain, h⟩ := bind_eq_ok.mp h
  obtain ⟨start, hstart, h⟩ := bind_eq_ok.mp h
  obtain ⟨finish, hfinish, h⟩ := bind_eq_ok.mp h
  have hne : senders ≠ [] := by
    obtain ⟨i, hi, -⟩ := exists_ok_of_mapM_eq_ok hsenders _ List.mem_cons_self
    exact List.ne_nil_of_mem hi
  have hrecipients : (l.recipient :: l.chain).mapM r.resolve = .ok (recipient :: chain) := by
    rw [List.mapM_cons, hrecipient, bind_ok, hchain]
    rfl
  rw [billingDates, hstart, bind_ok, hfinish, bind_ok]
  split at h
  · next hlate =>
    cases h
    exact ⟨senders, recipient, chain, [], hsenders, hne, hrecipients, if_pos hlate, rfl⟩
  · next hintime =>
    obtain ⟨-, -, h⟩ := bind_eq_ok.mp h
    obtain ⟨dates, hdates, h⟩ := bind_eq_ok.mp h
    cases h
    exact ⟨senders, recipient, chain, dates, hsenders, hne, hrecipients,
      (if_neg hintime).trans hdates, rfl⟩

/-- How much more an account wins by some invoices than by the line: the last recipient should win
the amount, and everyone who shares it lose a part for each time that they are named. -/
def excess (l : InvoiceLine) (senders recipients : List ℕ) (ts : List Transaction) (x : ℕ) : ℚ :=
  received ts x - given ts x -
    ((if recipients.getLast? = some x then l.amount.toDecimal.toRat else 0) -
      senders.count x * (l.amount.toDecimal.toRat / senders.length))

/-- Nothing is won or lost but what the parts are rounded by: `10 ^ -27` of the amount, unless a
part reaches below the finest place. -/
structure Conserves (l : InvoiceLine) (senders recipients : List ℕ) (ts : List Transaction)
    (x : ℕ) : Prop where
  normal : Decimal.IsNormal (l.amount.toDecimal.toRat / senders.length) →
    |l.excess senders recipients ts x| ≤ l.amount.toDecimal.toRat * 10 ^ (-27 : ℤ)
  always : |l.excess senders recipients ts x| ≤
    max (l.amount.toDecimal.toRat * 10 ^ (-27 : ℤ)) (senders.length * 10 ^ finestPlace)

/-- On each of its dates a line moves its amount from those who share it to the last recipient, and
nothing is left on the way but what the parts are rounded by. -/
theorem conserves_of_billed {ts : List Transaction}
    (h : l.billed options reference r = .ok ts) :
    ∃ senders recipients dates,
      (l.sender :: l.sharers).mapM r.resolve = .ok senders ∧
      (l.recipient :: l.chain).mapM r.resolve = .ok recipients ∧
      l.billingDates options reference = .ok dates ∧ (∀ t ∈ ts, t.date ∈ dates) ∧
      ∀ date ∈ dates, ∀ x, l.Conserves senders recipients (onDay ts date) x := by
  obtain ⟨senders, recipient, chain, dates, hsenders, hne, hrecipients, hdates, rfl⟩ :=
    exists_of_billed h
  refine ⟨senders, recipient :: chain, dates, hsenders, hrecipients, hdates, fun t ht => ?_,
    fun date hdate x => ?_⟩
  · obtain ⟨date, hdate, ht⟩ := List.mem_flatMap.mp ht
    rwa [Draft.date_of_mem_invoicesOn ht]
  · have hpos := List.length_pos_of_ne_nil hne
    have hlength : (0 : ℚ) < senders.length := by exact_mod_cast hpos
    have hamount : 0 ≤ l.amount.toDecimal.toRat := Decimal.toRat_nonneg_of_not_negative rfl
    have hplace := Decimal.ten_zpow_pos finestPlace
    have hpart : l.amount.toDecimal.toRat * 10 ^ (-27 : ℤ) = senders.length *
        (|l.amount.toDecimal.toRat| / senders.length * 10 ^ (1 - (precision : ℤ))) := by
      rw [abs_of_nonneg hamount, ← mul_assoc, mul_div_cancel₀ _ hlength.ne']
      rfl
    have hle : |l.excess senders (recipient :: chain)
        (onDay (dates.flatMap (Draft.invoicesOn l.note
          (Draft.sharedOut senders recipient chain l.amount.toDecimal))) date) x| ≤
        senders.length * |(l.amount.toDecimal.share senders.length).toRat -
          l.amount.toDecimal.toRat / senders.length| := by
      rw [Transaction.onDay_flatMap _ _ (nodup_billingDates hdates) hdate, excess,
        Draft.invoicesOn, Transaction.received_sub_given]
      exact Draft.abs_sum_gain_sharedOut_sub_le senders hne chain recipient x _
    constructor
    · intro hnormal
      have hoff := Decimal.abs_toRat_share_sub_le_of_isNormal hpos hnormal
      rw [hpart]
      refine hle.trans (mul_le_mul_of_nonneg_left (hoff.trans (half_le_self ?_)) hlength.le)
      positivity
    · have hoff := l.amount.toDecimal.abs_toRat_share_sub_le hpos
      rw [hpart, ← mul_max_of_nonneg _ _ hlength.le]
      refine hle.trans (mul_le_mul_of_nonneg_left (hoff.trans (half_le_self ?_)) hlength.le)
      exact hplace.le.trans (le_max_right _ _)

end InvoiceLine

/-! ## Ledgers -/

namespace Ledger

variable {options : Options} {reference : Date}

/-- The lines up to one of them are a ledger, and so are those with it and all lines. With the
line the invoices come behind those of the lines before, and those of the lines after follow. -/
def Brings (options : Options) (header : List Char) (before : List (List Char))
    (line : List Char) (after : List (List Char)) (ts : List Transaction) : Prop :=
  ∃ l₀ l₁ l₂, ofLines options header before = .ok l₀ ∧
    ofLines options header (before ++ [line]) = .ok l₁ ∧
    ofLines options header (before ++ line :: after) = .ok l₂ ∧
    l₁.invoices = l₀.invoices ++ ts ∧ l₁.invoices <+: l₂.invoices

/-- Without merging the invoices of a ledger are those that its lines ask for, one after the
other. -/
theorem invoices_of_addLines (hmerging : options.mergeInvoices = false) {lines : List (List Char)}
    {d : Draft} (h : ({} : Draft).addLines options reference 2 lines = (d, none)) {r : Registry}
    (hr : r.Distinct) (hkept : d.accounts.accounts <+: r.accounts) :
    (d.finish reference).invoices = lines.flatMap (invoicesOf options reference r) := by
  rw [Draft.finish, (Draft.consists_of_addLines h).invoices r hr hkept, hmerging,
    Draft.foldl_recorded_false, List.append_nil, List.reverse_reverse]

/-- An invoice line that is read brings the invoices that it asks for. -/
theorem exists_billed_brings (hmerging : options.mergeInvoices = false) {ledger : Ledger}
    {header line : List Char} {before after : List (List Char)} {l : InvoiceLine}
    (h : ofLines options header (before ++ line :: after) = .ok ledger)
    (hline : (Line.invoice l).Spells line) :
    ∃ ts, l.billed options ledger.referenceDate ledger.accounts = .ok ts ∧
      Brings options header before line after ts := by
  obtain ⟨reference, d, hheader, hbody, rfl⟩ := ofLines_eq_ok_iff.mp h
  obtain ⟨d₁, hbefore, hrest⟩ := Draft.addLines_append_eq_none_iff.mp hbody
  obtain ⟨d₂, hline₂, hafter⟩ := Draft.addLines_cons_eq_none_iff.mp hrest
  have hdistinct : d.accounts.freeze.Distinct := (Draft.addLines_keeps
    (fun _ _ _ hd hline => hd.carryOut hline) (.empty reference) hbody :
      d.WellFormed reference).distinct
  have hwith : ({} : Draft).addLines options reference 2 (before ++ [line]) = (d₂, none) :=
    Draft.addLines_append_eq_none_iff.mpr ⟨d₁, hbefore,
      Draft.addLines_cons_eq_none_iff.mpr ⟨d₂, hline₂, rfl⟩⟩
  obtain ⟨line', hread, hcarry⟩ := Draft.addLine_eq_ok_iff.mp hline₂
  obtain rfl := Option.some.inj (hline.ofText?_eq.symm.trans hread)
  -- The accounts of the whole ledger resolve the line as those before it did.
  obtain ⟨ts, hbilled, -⟩ := Draft.billed_of_addInvoice hcarry
  have hts : l.billed options reference d.accounts.freeze = .ok ts :=
    InvoiceLine.billed_of_isPrefix hbilled (Draft.accounts_kept_of_addLines hrest) hdistinct
  have hasked : invoicesOf options reference d.accounts.freeze line = ts := by
    rw [invoicesOf, hread, Option.map_some, Option.getD_some, Line.invoices, hts]
    rfl
  have hinvoices₁ := invoices_of_addLines hmerging hbefore hdistinct
    (Draft.accounts_kept_of_addLines hrest)
  have hinvoices₂ := invoices_of_addLines hmerging hwith hdistinct
    (Draft.accounts_kept_of_addLines hafter)
  have hinvoices := invoices_of_addLines hmerging hbody hdistinct (List.prefix_refl _)
  rw [List.flatMap_append, List.flatMap_singleton, hasked] at hinvoices₂
  rw [List.flatMap_append, List.flatMap_cons, hasked, ← List.append_assoc] at hinvoices
  refine ⟨ts, hts, _, _, _, ofLines_eq_ok_iff.mpr ⟨reference, d₁, hheader, hbefore, rfl⟩,
    ofLines_eq_ok_iff.mpr ⟨reference, d₂, hheader, hwith, rfl⟩, h, ?_, ?_⟩
  · rw [hinvoices₁, hinvoices₂]
  · rw [hinvoices₂, hinvoices]
    exact List.prefix_append _ _

/-- An invoice line conserves money up to the rounding of the parts. Without merging, the invoices
that it brings to a ledger are on its dates, and on each of them the last recipient wins the
amount, everyone who shares it loses a part for each time that they are named, and all others come
out even, but for the part of `10 ^ -27` of the amount (`InvoiceLine.Conserves`). -/
theorem ofString_conserves {options : Options} (hmerging : options.mergeInvoices = false)
    {text : String} {ledger : Ledger} {header line : List Char} {before after : List (List Char)}
    {l : InvoiceLine} (h : ofString options text = .ok ledger)
    (hcut : IsCut text.toList (header :: (before ++ line :: after)))
    (hline : (Line.invoice l).Spells line) :
    ∃ senders recipients dates ts,
      (l.sender :: l.sharers).mapM ledger.accounts.resolve = .ok senders ∧
      (l.recipient :: l.chain).mapM ledger.accounts.resolve = .ok recipients ∧
      l.billingDates options ledger.referenceDate = .ok dates ∧
      Brings options header before line after ts ∧ (∀ t ∈ ts, t.date ∈ dates) ∧
      ∀ date ∈ dates, ∀ x, l.Conserves senders recipients (onDay ts date) x := by
  rw [ofString_eq_ofLines_of_isCut options hcut] at h
  obtain ⟨ts, hbilled, hbrings⟩ := exists_billed_brings hmerging h hline
  obtain ⟨senders, recipients, dates, hsenders, hrecipients, hdates, hdays, hconserves⟩ :=
    InvoiceLine.conserves_of_billed hbilled
  exact ⟨senders, recipients, dates, ts, hsenders, hrecipients, hdates, hbrings, hdays, hconserves⟩

/-- Three accounts share a bill of which two of them are the recipients. -/
def potText : String :=
  "accounting_date 1.2.2024\naccount AA A\naccount BB B\naccount CC C\n" ++
    "invoice AA : BB : CC -> BB -> CC 1.00 4.1.2024 Pot"

/-- The bill. -/
def potLine : InvoiceLine where
  sender := "AA"
  sharers := ["BB", "CC"]
  recipient := "BB"
  chain := ["CC"]
  amount := ⟨['1'], ['0', '0']⟩
  start := ⟨['4'], ['1'], ['2', '0', '2', '4']⟩
  recurrence := none
  note := "Pot"

/-- The first recipient loses a third, although all three thirds come by it. -/
theorem ofString_conserves_pot :
    ({} : Options).mergeInvoices = false ∧ (Line.invoice potLine).Spells
        "invoice AA : BB : CC -> BB -> CC 1.00 4.1.2024 Pot".toList ∧
      ∃ ledger header before dates ts, ofString {} potText = .ok ledger ∧
        IsCut potText.toList (header :: (before ++
          "invoice AA : BB : CC -> BB -> CC 1.00 4.1.2024 Pot".toList :: [])) ∧
        Brings {} header before "invoice AA : BB : CC -> BB -> CC 1.00 4.1.2024 Pot".toList [] ts ∧
        potLine.billingDates {} ledger.referenceDate = .ok dates ∧ dates.length = 1 ∧
        ∀ date ∈ dates,
          |received (onDay ts date) 1 - given (onDay ts date) 1 + 1 / 3| ≤ 1 / 10 ^ 27 := by
  have hread : (ofString {} potText).toOption.map (fun l =>
      ((potLine.sender :: potLine.sharers).mapM l.accounts.resolve).toOption) =
        some (some [0, 1, 2]) ∧
    (ofString {} potText).toOption.map (fun l =>
      ((potLine.recipient :: potLine.chain).mapM l.accounts.resolve).toOption) =
        some (some [1, 2]) ∧
    (ofString {} potText).toOption.map (fun l =>
      ((potLine.billingDates {} l.referenceDate).map List.length).toOption) = some (some 1) := by
    decide +kernel
  obtain ⟨hfirst, hsecond, hthird⟩ := hread
  obtain ⟨ledger, hledger, hsenders⟩ := Option.map_eq_some_iff.mp hfirst
  rw [hledger, Option.map_some, Option.some_inj] at hsecond hthird
  rw [toOption_eq_some] at hledger hsenders hsecond hthird
  have hcut : IsCut potText.toList ("accounting_date 1.2.2024".toList ::
      (["account AA A", "account BB B", "account CC C"].map String.toList ++
        "invoice AA : BB : CC -> BB -> CC 1.00 4.1.2024 Pot".toList :: [])) :=
    isCut_iff.mpr (by decide +kernel)
  have hline : (Line.invoice potLine).Spells
      "invoice AA : BB : CC -> BB -> CC 1.00 4.1.2024 Pot".toList :=
    Line.ofText?_eq_some_iff.mp (by decide +kernel)
  obtain ⟨senders, recipients, dates, ts, hsenders', hrecipients, hdates, hbrings, -, hconserves⟩ :=
    ofString_conserves rfl hledger hcut hline
  obtain rfl := ok_unique hsenders hsenders'
  obtain rfl := ok_unique hsecond hrecipients
  refine ⟨rfl, hline, ledger, _, _, dates, ts, hledger, hcut, hbrings, hdates, ?_,
    fun date hdate => ?_⟩
  · rw [hdates] at hthird
    exact Except.ok.inj hthird
  · have hvalue : potLine.amount.toDecimal.toRat = 1 := by
      have hdecimal : potLine.amount.toDecimal = ⟨false, 100, -2⟩ := by decide
      norm_num [hdecimal, Decimal.toRat, Decimal.signed]
    have hnormal : Decimal.IsNormal (potLine.amount.toDecimal.toRat / [0, 1, 2].length) := by
      rw [hvalue]
      right
      calc (10 : ℚ) ^ (finestPlace + precision - 1)
          ≤ 10 ^ (-1 : ℤ) := zpow_le_zpow_right₀ (by norm_num) (by decide)
        _ ≤ |1 / ([0, 1, 2].length : ℚ)| := by norm_num
    have hone := (hconserves date hdate 1).normal hnormal
    rw [InvoiceLine.excess, hvalue] at hone
    norm_num at hone
    norm_num
    exact hone

end Ledger

end HouseLedger
