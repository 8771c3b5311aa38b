import HouseLedger.Account
import HouseLedger.Proofs.Outcome
import Mathlib.Data.List.Nodup

/-!
# Accounts and their indices

In a registry without repeated acronyms (`Registry.Distinct`) an acronym and an index
are two names of one account: `Registry.find?_eq_some_iff`. Adding an account keeps
this, and keeps all earlier indices.
-/

namespace HouseLedger

open Outcome

namespace Registry

/-- No acronym is registered twice. -/
def Distinct (r : Registry) : Prop := (r.accounts.map (·.acronym)).Nodup

theorem Distinct.empty : empty.Distinct := List.nodup_nil

/-! ## Looking up -/

/-- The index that is found has the account of the acronym. -/
theorem getElem?_of_find? {r : Registry} {acronym : String} {i : Nat}
    (h : r.find? acronym = some i) :
    ∃ account, r.accounts[i]? = some account ∧ account.acronym = acronym := by
  obtain ⟨hi, hacronym, -⟩ := List.findIdx?_eq_some_iff_getElem.mp h
  exact ⟨r.accounts[i], List.getElem?_eq_getElem hi, beq_iff_eq.mp hacronym⟩

theorem lt_size_of_find? {r : Registry} {acronym : String} {i : Nat}
    (h : r.find? acronym = some i) : i < r.size :=
  (List.findIdx?_eq_some_iff_getElem.mp h).1

theorem find?_eq_none_iff {r : Registry} {acronym : String} :
    r.find? acronym = none ↔ acronym ∉ r.accounts.map (·.acronym) := by
  simp [find?, List.findIdx?_eq_none_iff]

theorem Distinct.find?_eq_some_iff {r : Registry} (hr : r.Distinct) {acronym : String} {i : Nat} :
    r.find? acronym = some i ↔
      ∃ account, r.accounts[i]? = some account ∧ account.acronym = acronym := by
  constructor
  · exact getElem?_of_find?
  · rintro ⟨account, haccount, rfl⟩
    cases hfind : r.find? account.acronym with
    | none =>
      have hmem := List.mem_map_of_mem (f := Account.acronym) (List.mem_of_getElem? haccount)
      exact absurd hmem (find?_eq_none_iff.mp hfind)
    | some k =>
      -- Two places of one acronym are one place.
      obtain ⟨other, hother, hsame⟩ := getElem?_of_find? hfind
      have hk : (r.accounts.map (·.acronym))[k]? = some account.acronym := by
        rw [List.getElem?_map, hother, Option.map_some, hsame]
      have hi : (r.accounts.map (·.acronym))[i]? = some account.acronym := by
        rw [List.getElem?_map, haccount, Option.map_some]
      rw [(List.getElem?_inj (List.getElem?_eq_some_iff.mp hk).1 hr).mp (hk.trans hi.symm)]

theorem resolve_eq_ok_iff {r : Registry} {acronym : String} {i : Nat} :
    r.resolve acronym = .ok i ↔ r.find? acronym = some i := by
  unfold resolve
  cases r.find? acronym with
  | none => simp
  | some k => simp

theorem resolve_eq_error_iff {r : Registry} {acronym : String} {fault : Fault} :
    r.resolve acronym = .error fault ↔
      r.find? acronym = none ∧ fault = .accountUnknown acronym := by
  unfold resolve
  cases r.find? acronym with
  | none => simp [eq_comm]
  | some k => simp

theorem get_of_getElem? {r : Registry} {i : Nat} {account : Account}
    (h : r.accounts[i]? = some account) : r.get i = .ok account := by
  have hi : ¬ ((i : Int) < 0) := by omega
  simp [get, at?, hi, h]

/-! ## Adding -/

theorem add_eq_ok {r r' : Registry} {acronym name : String} (h : r.add acronym name = .ok r') :
    r.find? acronym = none ∧ r' = { r with accounts := r.accounts ++ [⟨acronym, name⟩] } := by
  unfold add at h
  split at h
  · cases h
  · split at h
    · cases h
    · next hknown =>
      cases h
      exact ⟨by simpa [contains] using hknown, rfl⟩

theorem add_eq_error {r : Registry} {acronym name : String} {fault : Fault}
    (hopen : r.frozen = false) (h : r.add acronym name = .error fault) :
    r.find? acronym ≠ none ∧ fault = .accountTaken acronym := by
  rw [add, hopen, if_neg Bool.false_ne_true] at h
  split at h
  · next hknown =>
    cases h
    exact ⟨Option.isSome_iff_ne_none.mp hknown, rfl⟩
  · cases h

theorem Distinct.of_add {r r' : Registry} (hr : r.Distinct) {acronym name : String}
    (h : r.add acronym name = .ok r') : r'.Distinct := by
  obtain ⟨hnew, rfl⟩ := add_eq_ok h
  rw [Distinct, List.map_append, List.nodup_append_comm]
  exact List.nodup_cons.mpr ⟨find?_eq_none_iff.mp hnew, hr⟩

theorem size_le_of_add {r r' : Registry} {acronym name : String}
    (h : r.add acronym name = .ok r') : r.size ≤ r'.size := by
  obtain ⟨-, rfl⟩ := add_eq_ok h
  simp [size]

/-! ## More accounts -/

section

variable {r r' : Registry}

/-- Accounts keep their indices when others are added behind them. -/
theorem resolve_of_isPrefix {acronym : String} {i : ℕ} (h : r.resolve acronym = .ok i)
    (hkept : r.accounts <+: r'.accounts) (hr' : r'.Distinct) : r'.resolve acronym = .ok i := by
  obtain ⟨account, haccount, hname⟩ := getElem?_of_find? (resolve_eq_ok_iff.mp h)
  obtain ⟨hi, rfl⟩ := List.getElem?_eq_some_iff.mp haccount
  exact resolve_eq_ok_iff.mpr (hr'.find?_eq_some_iff.mpr
    ⟨_, List.prefix_iff_getElem?.mp hkept i hi, hname⟩)

theorem mapM_resolve_of_isPrefix {acronyms : List String} {is : List ℕ}
    (h : acronyms.mapM r.resolve = .ok is) (hkept : r.accounts <+: r'.accounts)
    (hr' : r'.Distinct) : acronyms.mapM r'.resolve = .ok is := by
  induction acronyms generalizing is with
  | nil => simpa using h
  | cons a acronyms ih =>
    rw [List.mapM_cons] at h ⊢
    obtain ⟨i, hi, h⟩ := bind_eq_ok.mp h
    obtain ⟨is', his', h⟩ := bind_eq_ok.mp h
    rw [resolve_of_isPrefix hi hkept hr', bind_ok, ih his', bind_ok]
    exact h

end

end Registry

end HouseLedger
