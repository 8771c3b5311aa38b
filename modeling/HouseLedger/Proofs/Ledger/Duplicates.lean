import HouseLedger.Proofs.Ledger.Merging
import Mathlib.Data.List.Dedup

/-!
# Duplicate invoices

Merging leaves one invoice for each key, which is what alike invoices have in common: the two
accounts, the day and the note (`Transaction.key`). Since an invoice that is merged is recorded
anew, behind all others, the keys stand in the order in which they occur for the last time
(`Draft.map_key_merged`). Invoices of different keys have nothing to do with each other
(`Draft.filter_merged`), so that what is left of a key settles its invoices alone
(`Draft.settles_of_mem_merged`).
-/

namespace HouseLedger

open Outcome Text
open Balance (sent)
open Decimal (finestPlace)
open Transaction (ExactTotals)

namespace Transaction

/-! ## Keys -/

/-- What alike invoices have in common. -/
def key (t : Transaction) : Sym2 ℤ × Date × String := (t.pair, t.date, t.note)

theorem isAlike_iff {t u : Transaction} : t.isAlike u = true ↔ u.key = t.key := by
  simp only [isAlike, key, pair, Prod.mk.injEq, Sym2.eq_iff, Bool.and_eq_true, Bool.or_eq_true,
    beq_iff_eq]
  constructor
  · rintro ⟨⟨hdate, hnote⟩, ⟨hs, hr⟩ | ⟨hs, hr⟩⟩
    · exact ⟨.inl ⟨hs.symm, hr.symm⟩, hdate.symm, hnote.symm⟩
    · exact ⟨.inr ⟨hr.symm, hs.symm⟩, hdate.symm, hnote.symm⟩
  · rintro ⟨⟨hs, hr⟩ | ⟨hs, hr⟩, hdate, hnote⟩
    · exact ⟨⟨hdate.symm, hnote.symm⟩, .inl ⟨hs.symm, hr.symm⟩⟩
    · exact ⟨⟨hdate.symm, hnote.symm⟩, .inr ⟨hr.symm, hs.symm⟩⟩

/-- The invoice is what the invoices `us` come to between its accounts: it goes the way in which
they sum up to more, and has the difference for its amount. Where both ways come to the same, it
goes the way of the last of them. -/
structure Settles (m : Transaction) (us : List Transaction) : Prop where
  amount_eq : m.amount.toRat = |sent us m.sender m.recipient - sent us m.recipient m.sender|
  direction : sent us m.recipient m.sender ≤ sent us m.sender m.recipient
  last : sent us m.sender m.recipient = sent us m.recipient m.sender →
    ∃ u, us.getLast? = some u ∧ u.sender = m.sender ∧ u.recipient = m.recipient

end Transaction

/-! ## Lists of keys -/

/-- Where no two elements have one key, a key picks a single element. -/
theorem filter_key_eq_singleton {α κ : Type} [DecidableEq κ] {f : α → κ} {xs : List α}
    (h : (xs.map f).Nodup) {x : α} (hx : x ∈ xs) : (xs.filter fun y => f y = f x) = [x] := by
  obtain ⟨as, bs, rfl⟩ := List.append_of_mem hx
  rw [List.map_append, List.map_cons, List.nodup_middle, List.nodup_cons, List.mem_append,
    not_or, List.mem_map, List.mem_map] at h
  obtain ⟨⟨has, hbs⟩, -⟩ := h
  rw [List.filter_append, List.filter_cons_of_pos (by simp), List.filter_eq_nil_iff.mpr,
    List.filter_eq_nil_iff.mpr, List.nil_append]
  · exact fun y hy heq => hbs ⟨y, hy, of_decide_eq_true heq⟩
  · exact fun y hy heq => has ⟨y, hy, of_decide_eq_true heq⟩

/-- Of a list that is longer by one, the last occurrences are those of the list but for the new
element, which comes last. -/
theorem dedup_append_singleton {α : Type} [BEq α] [LawfulBEq α] [DecidableEq α] (ks : List α)
    (k : α) :
    (ks ++ [k]).dedup = ks.dedup.erase k ++ [k] := by
  induction ks with
  | nil => rfl
  | cons a ks ih =>
    rw [List.cons_append]
    by_cases ha : a ∈ ks
    · rw [List.dedup_cons_of_mem (List.mem_append_left _ ha), List.dedup_cons_of_mem ha, ih]
    · rw [List.dedup_cons_of_notMem ha]
      by_cases hak : a = k
      · rw [hak, List.dedup_cons_of_mem (by simp), ih, List.erase_cons_head,
          List.erase_of_not_mem]
        rwa [List.mem_dedup, ← hak]
      · rw [List.dedup_cons_of_notMem (by simp [ha, hak]), ih,
          List.erase_cons_tail (by simpa using hak), List.cons_append]

namespace Draft

open Transaction (key)

variable {ts : List Transaction} {m t : Transaction}

/-! ## Merged lists -/

theorem key_mergeInvoices (old new : Transaction) : (mergeInvoices old new).key = new.key :=
  Transaction.isAlike_iff.mp (isAlike_mergeInvoices old new)

/-- Recording an invoice puts its key in front, and erases it elsewhere. -/
theorem map_key_recorded (ts : List Transaction) (t : Transaction) :
    (recorded true ts t).map key = t.key :: (ts.map key).erase t.key := by
  have halike : (fun k => k == t.key) ∘ key = t.isAlike := by
    funext u
    rw [Bool.eq_iff_iff, Transaction.isAlike_iff, Function.comp_apply, beq_iff_eq]
  rw [List.erase_eq_eraseP', List.eraseP_map, halike]
  unfold recorded
  rw [if_pos rfl]
  cases hfind : ts.find? t.isAlike with
  | none => rw [List.eraseP_of_forall_not (List.find?_eq_none.mp hfind), List.map_cons]
  | some old => rw [List.map_cons, key_mergeInvoices]

/-- The keys of merged invoices are those of all, each where it occurs for the last time. -/
theorem map_key_merged (ts : List Transaction) :
    (merged ts).map key = (ts.map key).dedup := by
  unfold merged
  induction ts using List.reverseRecOn with
  | nil => rfl
  | append_singleton ts t ih =>
    have hnodup : ((ts.foldl (recorded true) []).map key).Nodup := by
      rw [← List.nodup_reverse, ← List.map_reverse, ih]
      exact List.nodup_dedup _
    rw [List.foldl_append, List.foldl_cons, List.foldl_nil, List.map_append, List.map_singleton,
      dedup_append_singleton, ← ih, List.map_reverse, List.map_reverse, map_key_recorded,
      List.reverse_cons, hnodup.erase_eq_filter, (List.nodup_reverse.mpr hnodup).erase_eq_filter,
      List.filter_reverse]

theorem filter_merged {p : Transaction → Bool}
    (hp : ∀ a b : Transaction, a.isAlike b = true → p b = p a) (ts : List Transaction) :
    (merged ts).filter p = merged (ts.filter p) := by
  rw [merged, List.filter_reverse, filter_foldl_recorded hp]
  rfl

/-! ## One key -/

/-- What is left of the invoices with the key of a merged one is that one. -/
theorem merged_filter_key (hm : m ∈ merged ts) :
    merged (ts.filter fun t => t.key = m.key) = [m] := by
  have hnodup : ((merged ts).map key).Nodup := by
    rw [map_key_merged]
    exact List.nodup_dedup _
  rw [← filter_merged fun a b halike => by rw [Transaction.isAlike_iff.mp halike]]
  exact filter_key_eq_singleton hnodup hm

/-- An invoice that is recorded keeps its direction, unless more has gone the other way. -/
theorem direction_recorded {merging : Bool} {rest : List Transaction}
    (h : recorded merging ts t = m :: rest) :
    t.sender = m.sender ∧ t.recipient = m.recipient ∨ 0 < m.amount.toRat := by
  unfold recorded at h
  cases hold : (if merging then ts.find? t.isAlike else none) with
  | none =>
    rw [hold] at h
    cases h
    exact .inl ⟨rfl, rfl⟩
  | some old =>
    rw [hold] at h
    cases h
    obtain ⟨-, heq⟩ | ⟨hbelow, heq⟩ := mergeInvoices_cases old t
    · rw [heq]
      exact .inl ⟨rfl, rfl⟩
    · rw [heq]
      right
      have hround : (mergedTotal old t).round = mergedTotal old t := by
        rcases mergedTotal_cases old t with hsum | hsum
        · rw [hsum, Decimal.round_add]
        · rw [hsum, Decimal.sub_eq_add_flip, Decimal.round_add]
      rw [Decimal.toRat_neg, hround]
      exact neg_pos.mpr ((Decimal.isBelowZero_iff _).mp hbelow)

section

variable {f : ℕ} (hf : finestPlace ≤ -(f : ℤ))
include hf

/-- A single invoice that is left settles all that it is made of. -/
theorem settles_of_merged_eq (h : ∀ t ∈ ts, t.role = .invoice ∧ t.Valid) (hm : merged ts = [m])
    (hexact : ExactTotals f ts) : m.Settles ts := by
  have hcondenses := condenses_merged h
  rw [hm] at hcondenses
  obtain ⟨hrole, hvalid⟩ := hcondenses.invoices m (List.mem_singleton_self m)
  have hamount : m.amount.toRat = sent ts m.sender m.recipient - sent ts m.recipient m.sender := by
    have htally := (hcondenses.exact f hf hexact).tally_eq m.sender m.recipient
    rw [Balance.tally_of_invoices (fun t ht => (h t ht).1) hvalid.parties_ne, Balance.tally_cons,
      Balance.tally_nil, Transaction.contribution_of_invoice hrole, Transaction.heading,
      if_pos ⟨rfl, rfl⟩] at htally
    linarith
  have hnonneg := hvalid.amount_nonneg
  refine ⟨?_, by linarith, fun heven => ?_⟩
  · rw [← hamount, abs_of_nonneg hnonneg]
  · rcases List.eq_nil_or_concat' ts with rfl | ⟨us, u, rfl⟩
    · cases hm
    · rw [merged, List.foldl_append, List.foldl_cons, List.foldl_nil, List.reverse_eq_iff] at hm
      rcases direction_recorded hm with hdirection | hpos
      · exact ⟨u, by simp, hdirection⟩
      · exact absurd hpos (by linarith)

/-- Each of the merged invoices settles those of its key. -/
theorem settles_of_mem_merged (h : ∀ t ∈ ts, t.role = .invoice ∧ t.Valid)
    (hexact : ExactTotals f ts) (hm : m ∈ merged ts) :
    m.Settles (ts.filter fun t => t.key = m.key) := by
  refine settles_of_merged_eq hf (fun t ht => h t (List.mem_of_mem_filter ht))
    (merged_filter_key hm) ⟨fun t ht => hexact.places t (List.mem_of_mem_filter ht), ?_⟩
  exact (Transaction.sum_amounts_le_of_sublist List.filter_sublist fun t ht =>
    (h t ht).2).trans_lt hexact.small

end

end Draft

/-! ## Ledgers -/

namespace Ledger

/-- Merging leaves one invoice for each key that the invoices have without merging, in the order in
which the keys occur for the last time. Unless a total has to be rounded, it is what the invoices
of the key come to. -/
theorem ofString_duplicates {options : Options} {text : String} {ledger : Ledger}
    (h : ofString options text = .ok ledger) :
    ∃ l', ofString { options with mergeInvoices := false } text = .ok l' ∧
      FailsIff .overflow (¬ Draft.Enterable true [] l'.invoices)
        (ofString { options with mergeInvoices := true } text) ∧
      (∀ l, ofString { options with mergeInvoices := true } text = .ok l →
        (l.invoices.map Transaction.key).Nodup ∧
        (∀ k, k ∈ l.invoices.map Transaction.key ↔ k ∈ l'.invoices.map Transaction.key) ∧
        l.invoices.map Transaction.key = (l'.invoices.map Transaction.key).dedup) ∧
      ∀ f ≤ 1000026, ExactTotals f l'.invoices →
        ∃ l, ofString { options with mergeInvoices := true } text = .ok l ∧
          ∀ m ∈ l.invoices, m.Settles (l'.invoices.filter fun t => t.key = m.key) := by
  obtain ⟨l', h'⟩ := @exists_unmerged options text ledger options.mergeInvoices h
  have hrecorded := (wellFormed_of_ofString h').invoices
  have hinvoices : ∀ t ∈ l'.invoices, t.role = .invoice ∧ t.Valid := fun t ht =>
    ⟨(hrecorded t ht).role_eq, (hrecorded t ht).valid⟩
  refine ⟨l', h', failsIff_merging options h', fun l hl => ?_, fun f hf hexact => ?_⟩
  · rw [eq_merged options hl h']
    dsimp only
    rw [Draft.map_key_merged]
    exact ⟨List.nodup_dedup _, fun k => List.mem_dedup, rfl⟩
  · have hplace := Decimal.finestPlace_le_neg hf
    obtain ⟨l, hl⟩ := (failsIff_merging options h').exists_iff.mpr
      (not_not.mpr (Draft.enterable_of_exactTotals hinvoices hplace hexact))
    refine ⟨l, hl, fun m hm => ?_⟩
    rw [eq_merged options hl h'] at hm
    exact Draft.settles_of_mem_merged hplace hinvoices hexact hm

/-- A bill for tea that is paid back by one for as much, and a bill for jam in between. -/
def breakfastText : String :=
  "accounting_date 1.2.2024\naccount AA Anna\naccount BB Bert\n" ++
    "invoice AA -> BB 3.00 5.1.2024 tea\ninvoice AA -> BB 2.00 5.1.2024 jam\n" ++
    "invoice BB -> AA 3.00 5.1.2024 tea\n"

/-- The tea is even: it comes behind the jam, in its last direction. -/
theorem ofString_duplicates_breakfast :
    ∃ l l', ofString { mergeInvoices := true } breakfastText = .ok l ∧
      ofString {} breakfastText = .ok l' ∧ ExactTotals 2 l'.invoices ∧
      l'.invoices.map (fun t => (t.sender, t.recipient, t.note)) =
        [(0, 1, "tea"), (0, 1, "jam"), (1, 0, "tea")] ∧
      l.invoices.map (fun t => (t.sender, t.recipient, t.note)) =
        [(0, 1, "jam"), (1, 0, "tea")] ∧
      l.invoices.map Transaction.key = (l'.invoices.map Transaction.key).dedup ∧
      ∀ m ∈ l.invoices, m.Settles (l'.invoices.filter fun t => t.key = m.key) := by
  have hmerged : (ofString { mergeInvoices := true } breakfastText).toOption.map (fun l =>
      l.invoices.map fun t => (t.sender, t.recipient, t.note)) =
        some [(0, 1, "jam"), (1, 0, "tea")] := by
    decide +kernel
  have hplain : (ofString {} breakfastText).toOption.map (fun l =>
      (l.invoices.map fun t => (t.sender, t.recipient, t.note), l.invoices.map (·.amount))) =
        some ([(0, 1, "tea"), (0, 1, "jam"), (1, 0, "tea")],
          [⟨false, 300, -2⟩, ⟨false, 200, -2⟩, ⟨false, 300, -2⟩]) := by
    decide +kernel
  obtain ⟨l, hl, hnotes⟩ := Option.map_eq_some_iff.mp hmerged
  obtain ⟨l', hl', hread⟩ := Option.map_eq_some_iff.mp hplain
  obtain ⟨hnotes', hamounts⟩ := Prod.mk.inj hread
  rw [toOption_eq_some] at hl hl'
  have hexact : ExactTotals 2 l'.invoices := by
    rw [Transaction.exactTotals_iff, hamounts]
    simp only [List.forall_mem_cons, Decimal.HasPlaces]
    refine ⟨⟨⟨300, ?_⟩, ⟨200, ?_⟩, ⟨300, ?_⟩, by simp⟩, ?_⟩ <;>
      norm_num [Decimal.toRat, Decimal.signed, Decimal.precision]
  obtain ⟨l₂, h₂, -, hkeys, hsettles⟩ := ofString_duplicates hl'
  obtain rfl := ok_unique hl' h₂
  obtain ⟨l₁, h₁, hall⟩ := hsettles 2 (by norm_num) hexact
  obtain rfl := ok_unique hl h₁
  exact ⟨l, l', hl, hl', hexact, hnotes', hnotes, (hkeys l hl).2.2, hall⟩

/-- Two alike bills of four units below the finest place come to one unit of it. -/
theorem duplicates_differ :
    ∃ l l' m, ofString { mergeInvoices := true } (relayText (.tiny 1000026 '4')) = .ok l ∧
      ofString {} (relayText (.tiny 1000026 '4')) = .ok l' ∧ ExactTotals 1000027 l'.invoices ∧
      m ∈ l.invoices ∧ ¬ m.Settles (l'.invoices.filter fun t => t.key = m.key) := by
  obtain ⟨l, l', hl, hl', hinvoices, -⟩ := exists_merging_dust
  refine ⟨l, l', Draft.mergeInvoices dust dust, hl, hl', ?_, ?_, fun h => ?_⟩
  · rw [hinvoices]
    exact exactTotals_dust
  · rw [eq_merged {} hl hl', hinvoices]
    exact List.mem_singleton_self _
  · have hfilter : ([dust, dust].filter fun t => t.key = (Draft.mergeInvoices dust dust).key) =
        [dust, dust] := by decide
    have hmerged : Draft.mergeInvoices dust dust =
        ⟨0, 1, ⟨false, 1, -1000026⟩, februaryFirst, "rent", .invoice⟩ := by decide
    have hunit : (10 : ℚ) ^ (-1000026 : ℤ) = 10 * 10 ^ (-1000027 : ℤ) := by
      rw [show (-1000026 : ℤ) = 1 + -1000027 by decide, Decimal.ten_zpow_add, zpow_one]
    have hsent : sent [dust, dust] 0 1 = 8 * 10 ^ (-1000027 : ℤ) := by
      rw [Balance.sent_cons, Balance.sent_cons, if_pos ⟨rfl, rfl⟩, toRat_dust,
        show sent [] 0 1 = 0 from rfl]
      ring
    have hback : sent [dust, dust] 1 0 = 0 := by
      rw [Balance.sent_cons, Balance.sent_cons, if_neg (by decide),
        show sent [] 1 0 = 0 from rfl, add_zero, add_zero]
    have hamount := h.amount_eq
    rw [hinvoices, hfilter, hmerged] at hamount
    dsimp only at hamount
    have hpos := Decimal.ten_zpow_pos (-1000027)
    rw [hsent, hback, sub_zero, Decimal.toRat_of_not_negative rfl, Nat.cast_one, one_mul, hunit,
      abs_of_pos (by positivity)] at hamount
    linarith

end Ledger

end HouseLedger
