import HouseLedger.Proofs.Registry
import HouseLedger.Roster

/-!
# Accounts and the table of their indices

A roster keeps its accounts and a table of their indices, and nothing but the order in which
operations change the two keeps them in step. `Roster.Sound` says that the table finds what
going through the accounts finds. Each operation keeps it (`Roster.Sound.step`), so it holds
after any of them (`Roster.sound_after`).

* `Roster.Sound.step_eq`: a sound roster answers as its registry does, which is what ledgers are
  read with.
* `Roster.lawful_after`: what can be relied on after whatever operations, failed ones among
  them.
-/

namespace HouseLedger

namespace Roster

variable {r r' : Roster} {acronym name : String}

/-! ## Running -/

section

variable {α β : Type} {x : Action α}

theorem run_bind_of_ok {a : α} (h : x.run.run r = (.ok a, r')) (f : α → Action β) :
    (x >>= f).run.run r = (f a).run.run r' := by
  rw [ExceptT.run_bind, StateT.run_bind, h]
  rfl

theorem run_bind_of_error {fault : Fault} (h : x.run.run r = (.error fault, r'))
    (f : α → Action β) : (x >>= f).run.run r = (.error fault, r') := by
  rw [ExceptT.run_bind, StateT.run_bind, h]
  rfl

end

theorem run_get (r : Roster) : (get : Action Roster).run.run r = (.ok r, r) := rfl

theorem run_find? {i : Option Nat} (h : r.indices.lookup acronym = i) :
    (find? acronym).run.run r = (.ok i, r) := by
  rw [← h]
  rfl

/-- The roster with one more account. -/
def push (r : Roster) (acronym name : String) : Roster :=
  { r with
    accounts := r.accounts ++ [⟨acronym, name⟩]
    indices := (acronym, r.accounts.length) :: r.indices }

theorem run_add_of_frozen (h : r.frozen = true) (acronym name : String) :
    (add acronym name).run.run r = (.error (.registryFrozen acronym), r) := by
  rw [add, run_bind_of_ok (run_get r), if_pos h]
  rfl

theorem run_add_of_some (hopen : r.frozen = false) {i : Nat}
    (h : r.indices.lookup acronym = some i) (name : String) :
    (add acronym name).run.run r = (.error (.accountTaken acronym), r) := by
  rw [add, run_bind_of_ok (run_get r), if_neg (by simp [hopen]), run_bind_of_ok (run_find? h)]
  rfl

theorem run_add_of_none (hopen : r.frozen = false) (h : r.indices.lookup acronym = none)
    (name : String) :
    (add acronym name).run.run r = (.ok r.accounts.length, r.push acronym name) := by
  rw [add, run_bind_of_ok (run_get r), if_neg (by simp [hopen]), run_bind_of_ok (run_find? h)]
  rfl

theorem run_resolve_of_some {i : Nat} (h : r.indices.lookup acronym = some i) :
    (resolve acronym).run.run r = (.ok i, r) := by
  rw [resolve, run_bind_of_ok (run_find? h)]
  rfl

theorem run_resolve_of_none (h : r.indices.lookup acronym = none) :
    (resolve acronym).run.run r = (.error (.accountUnknown acronym), r) := by
  rw [resolve, run_bind_of_ok (run_find? h)]
  rfl

/-! ## Steps -/

theorem step_find (r : Roster) (acronym : String) :
    r.step (.find acronym) = (.ok (.found (r.indices.lookup acronym)), r) := rfl

theorem step_contains (r : Roster) (acronym : String) :
    r.step (.contains acronym) = (.ok (.holds (r.indices.lookup acronym).isSome), r) := rfl

theorem step_add_of_frozen (h : r.frozen = true) (acronym name : String) :
    r.step (.add acronym name) = (.error (.registryFrozen acronym), r) :=
  run_bind_of_error (run_add_of_frozen h acronym name) _

theorem step_add_of_some (hopen : r.frozen = false) {i : Nat}
    (h : r.indices.lookup acronym = some i) (name : String) :
    r.step (.add acronym name) = (.error (.accountTaken acronym), r) :=
  run_bind_of_error (run_add_of_some hopen h name) _

theorem step_add_of_none (hopen : r.frozen = false) (h : r.indices.lookup acronym = none)
    (name : String) :
    r.step (.add acronym name) = (.ok (.index r.accounts.length), r.push acronym name) :=
  run_bind_of_ok (run_add_of_none hopen h name) _

theorem step_resolve_of_some {i : Nat} (h : r.indices.lookup acronym = some i) :
    r.step (.resolve acronym) = (.ok (.index i), r) :=
  run_bind_of_ok (run_resolve_of_some h) _

theorem step_resolve_of_none (h : r.indices.lookup acronym = none) :
    r.step (.resolve acronym) = (.error (.accountUnknown acronym), r) :=
  run_bind_of_error (run_resolve_of_none h) _

theorem step_get (r : Roster) (position : Int) :
    r.step (.get position) = ((r.toRegistry.get position).map .account, r) := by
  have hrun : (accountAt position).run.run r = (r.toRegistry.get position, r) := rfl
  cases hget : r.toRegistry.get position with
  | ok account =>
    rw [hget] at hrun
    exact run_bind_of_ok hrun _
  | error fault =>
    rw [hget] at hrun
    exact run_bind_of_error hrun _

/-- The account that an operation has added, by its answer. -/
def added? : Operation × Except Fault Answer → Option Account
  | (.add acronym name, .ok _) => some ⟨acronym, name⟩
  | _ => none

/-- What an operation can do to a roster. -/
theorem step_cases (r : Roster) (o : Operation) :
    (r.step o).2 = r ∧ added? (o, (r.step o).1) = none ∨
    (o = .freeze ∧ r.step o = (.ok .done, { r with frozen := true })) ∨
    ∃ acronym name, o = .add acronym name ∧ r.frozen = false ∧
      r.indices.lookup acronym = none ∧
      r.step o = (.ok (.index r.accounts.length), r.push acronym name) := by
  cases o with
  | add acronym name =>
    cases hfrozen : r.frozen with
    | true =>
      rw [step_add_of_frozen hfrozen]
      exact .inl ⟨rfl, rfl⟩
    | false =>
      cases hlookup : r.indices.lookup acronym with
      | none => exact .inr (.inr ⟨_, _, rfl, rfl, hlookup, step_add_of_none hfrozen hlookup name⟩)
      | some i =>
        rw [step_add_of_some hfrozen hlookup]
        exact .inl ⟨rfl, rfl⟩
  | freeze => exact .inr (.inl ⟨rfl, rfl⟩)
  | find acronym => exact .inl ⟨rfl, rfl⟩
  | resolve acronym =>
    cases hlookup : r.indices.lookup acronym with
    | none =>
      rw [step_resolve_of_none hlookup]
      exact .inl ⟨rfl, rfl⟩
    | some i =>
      rw [step_resolve_of_some hlookup]
      exact .inl ⟨rfl, rfl⟩
  | get position =>
    rw [step_get]
    exact .inl ⟨rfl, rfl⟩
  | contains acronym => exact .inl ⟨rfl, rfl⟩
  | list => exact .inl ⟨rfl, rfl⟩

theorem step_of_error {o : Operation} {fault : Fault} (h : (r.step o).1 = .error fault) :
    (r.step o).2 = r := by
  rcases r.step_cases o with ⟨hsame, -⟩ | ⟨-, hstep⟩ | ⟨acronym, name, -, -, -, hstep⟩
  · exact hsame
  · rw [hstep] at h
    cases h
  · rw [hstep] at h
    cases h

/-! ## The table and the accounts -/

/-- The table finds what is found by going through the accounts. -/
structure Sound (r : Roster) : Prop where
  distinct : r.toRegistry.Distinct
  lookup_eq : ∀ acronym, r.indices.lookup acronym = r.toRegistry.find? acronym

theorem Sound.empty : ({} : Roster).Sound := ⟨Registry.Distinct.empty, fun _ => rfl⟩

theorem toRegistry_push (hopen : r.frozen = false) (h : r.toRegistry.find? acronym = none)
    (name : String) : r.toRegistry.add acronym name = .ok (r.push acronym name).toRegistry := by
  have hnew : r.toRegistry.contains acronym = false := by
    rw [Registry.contains, h]
    rfl
  rw [Registry.add, if_neg (by simp [toRegistry, hopen]), if_neg (by simp [hnew])]
  rfl

theorem Sound.push (h : r.Sound) (hopen : r.frozen = false)
    (hnew : r.indices.lookup acronym = none) (name : String) : (r.push acronym name).Sound := by
  rw [h.lookup_eq] at hnew
  refine ⟨h.distinct.of_add (toRegistry_push hopen hnew name), fun other => ?_⟩
  have hlookup := h.lookup_eq other
  simp only [Registry.find?, toRegistry] at hlookup hnew
  simp only [Roster.push, toRegistry, Registry.find?, List.lookup_cons, List.findIdx?_append,
    hlookup]
  by_cases hsame : other = acronym
  · subst hsame
    simp [hnew]
  · have hother : (other == acronym) = false := beq_false_of_ne hsame
    have hnext : (acronym == other) = false := beq_false_of_ne (Ne.symm hsame)
    simp [hother, hnext]

theorem Sound.step (h : r.Sound) (o : Operation) : (r.step o).2.Sound := by
  rcases r.step_cases o with ⟨hsame, -⟩ | ⟨-, hstep⟩ | ⟨acronym, name, -, hopen, hnew, hstep⟩
  · rwa [hsame]
  · rw [hstep]
    exact ⟨h.distinct, h.lookup_eq⟩
  · rw [hstep]
    exact h.push hopen hnew name

theorem Sound.after (h : r.Sound) (os : List Operation) : (r.after os).Sound := by
  induction os generalizing r with
  | nil => exact h
  | cons o os ih => exact ih (h.step o)

/-- The table is right after any operations. -/
theorem sound_after (os : List Operation) : (after {} os).Sound := Sound.empty.after os

theorem Sound.lookup_eq_none_iff (h : r.Sound) :
    r.indices.lookup acronym = none ↔ acronym ∉ r.accounts.map (·.acronym) := by
  rw [h.lookup_eq]
  exact Registry.find?_eq_none_iff

theorem Sound.lookup_eq_some_iff (h : r.Sound) {i : Nat} :
    r.indices.lookup acronym = some i ↔
      ∃ account, r.accounts[i]? = some account ∧ account.acronym = acronym := by
  rw [h.lookup_eq]
  exact h.distinct.find?_eq_some_iff

/-! ## What stays -/

/-- Accounts are only ever added behind the others. -/
theorem accounts_after (r : Roster) (os : List Operation) :
    (r.after os).accounts = r.accounts ++ (r.trace os).filterMap added? := by
  induction os generalizing r with
  | nil => exact (List.append_nil _).symm
  | cons o os ih =>
    have hafter : r.after (o :: os) = (r.step o).2.after os := rfl
    rw [hafter, ih, trace]
    rcases r.step_cases o with ⟨hsame, hnone⟩ | ⟨rfl, hstep⟩ | ⟨acronym, name, rfl, -, -, hstep⟩
    · rw [List.filterMap_cons_none hnone, hsame]
    · rw [hstep, List.filterMap_cons_none rfl]
    · have hadded : added? (.add acronym name, .ok (.index r.accounts.length)) =
          some ⟨acronym, name⟩ := rfl
      rw [hstep, List.filterMap_cons_some hadded, push, List.append_assoc, List.singleton_append]

theorem frozen_step (h : r.frozen = true) (o : Operation) :
    (r.step o).2.frozen = true ∧ (r.step o).2.accounts = r.accounts := by
  rcases r.step_cases o with ⟨hsame, -⟩ | ⟨-, hstep⟩ | ⟨acronym, name, -, hopen, -⟩
  · rw [hsame]
    exact ⟨h, rfl⟩
  · rw [hstep]
    exact ⟨rfl, rfl⟩
  · rw [hopen] at h
    cases h

theorem accounts_of_frozen (h : r.frozen = true) (os : List Operation) :
    (r.after os).accounts = r.accounts := by
  induction os generalizing r with
  | nil => rfl
  | cons o os ih =>
    obtain ⟨hfrozen, haccounts⟩ := frozen_step h o
    exact (ih hfrozen).trans haccounts

end Roster

/-! ## Rosters and registries -/

namespace Registry

/-- What a registry answers, and the registry after it. -/
def step (g : Registry) : Roster.Operation → Except Fault Roster.Answer × Registry
  | .add acronym name =>
    match g.add acronym name with
    | .ok g' => (.ok (.index g.size), g')
    | .error fault => (.error fault, g)
  | .freeze => (.ok .done, g.freeze)
  | .find acronym => (.ok (.found (g.find? acronym)), g)
  | .resolve acronym => ((g.resolve acronym).map .index, g)
  | .get position => ((g.get position).map .account, g)
  | .contains acronym => (.ok (.holds (g.contains acronym)), g)
  | .list => (.ok (.accounts g.accounts), g)

/-- Operations on a registry and what they answer, one after the other. -/
def trace (g : Registry) : List Roster.Operation →
    List (Roster.Operation × Except Fault Roster.Answer)
  | [] => []
  | o :: os => (o, (g.step o).1) :: trace (g.step o).2 os

end Registry

namespace Roster

variable {r : Roster}

/-- A sound roster does what its registry does. -/
theorem Sound.step_eq (h : r.Sound) (o : Operation) :
    r.toRegistry.step o = ((r.step o).1, (r.step o).2.toRegistry) := by
  cases o with
  | add acronym name =>
    cases hfrozen : r.frozen with
    | true =>
      have hadd : r.toRegistry.add acronym name = .error (.registryFrozen acronym) := if_pos hfrozen
      rw [step_add_of_frozen hfrozen, Registry.step, hadd]
    | false =>
      cases hlookup : r.indices.lookup acronym with
      | none =>
        have hfind : r.toRegistry.find? acronym = none := (h.lookup_eq acronym).symm.trans hlookup
        rw [step_add_of_none hfrozen hlookup, Registry.step, toRegistry_push hfrozen hfind]
        rfl
      | some i =>
        have hadd : r.toRegistry.add acronym name = .error (.accountTaken acronym) := by
          rw [Registry.add, if_neg (by simp [toRegistry, hfrozen]), Registry.contains,
            ← h.lookup_eq, hlookup]
          rfl
        rw [step_add_of_some hfrozen hlookup, Registry.step, hadd]
  | freeze => rfl
  | find acronym => rw [step_find, Registry.step, h.lookup_eq]
  | resolve acronym =>
    rw [Registry.step, Registry.resolve, ← h.lookup_eq]
    cases hlookup : r.indices.lookup acronym with
    | none =>
      rw [step_resolve_of_none hlookup]
      rfl
    | some i =>
      rw [step_resolve_of_some hlookup]
      rfl
  | get position => rw [step_get, Registry.step]
  | contains acronym => rw [step_contains, Registry.step, Registry.contains, h.lookup_eq]
  | list => rfl

theorem Sound.trace_eq (h : r.Sound) (os : List Operation) : r.trace os = r.toRegistry.trace os := by
  induction os generalizing r with
  | nil => rfl
  | cons o os ih => rw [trace, Registry.trace, h.step_eq, ih (h.step o)]

/-! ## After any operations -/

/-- What can be relied on. -/
structure Lawful (r : Roster) : Prop where
  /-- The index of an acronym is the place of its account. -/
  find_iff : ∀ acronym i, (r.step (.find acronym)).1 = .ok (.found (some i)) ↔
    ∃ account, r.accounts[i]? = some account ∧ account.acronym = acronym
  /-- No two accounts have one acronym. -/
  nodup : (r.accounts.map (·.acronym)).Nodup
  /-- An acronym is there if an account has it. -/
  contains_eq : ∀ acronym, (r.step (.contains acronym)).1 =
    .ok (.holds (decide (acronym ∈ r.accounts.map (·.acronym))))
  /-- An account can be added unless the accounts are closed or its acronym is there, and its
  index is the number of accounts before it. -/
  add_iff : ∀ acronym name answer, (r.step (.add acronym name)).1 = .ok answer ↔
    r.frozen = false ∧ acronym ∉ r.accounts.map (·.acronym) ∧ answer = .index r.accounts.length
  /-- Only an acronym that is not there cannot be resolved. -/
  resolve_iff : ∀ acronym, (∃ fault, (r.step (.resolve acronym)).1 = .error fault) ↔
    (r.step (.contains acronym)).1 = .ok (.holds false)
  /-- An acronym is resolved to the index that is found for it. -/
  resolve_eq : ∀ acronym i, (r.step (.resolve acronym)).1 = .ok (.index i) ↔
    (r.step (.find acronym)).1 = .ok (.found (some i))
  /-- What fails changes nothing. -/
  unchanged : ∀ o fault, (r.step o).1 = .error fault → (r.step o).2 = r
  /-- An index stands for the same account for ever. -/
  lasting : ∀ (i : Nat) account, r.accounts[i]? = some account → ∀ os,
    ((r.after os).step (.get i)).1 = .ok (.account account) ∧
    ((r.after os).step (.find account.acronym)).1 = .ok (.found (some i))
  /-- Closed accounts stay as they are. -/
  closed : r.frozen = true → ∀ os, (r.after os).accounts = r.accounts

theorem Sound.lawful (h : r.Sound) : r.Lawful where
  find_iff acronym i := by
    rw [← h.lookup_eq_some_iff, step_find]
    simp
  nodup := h.distinct
  contains_eq acronym := by
    have hiff : (r.indices.lookup acronym).isSome =
        decide (acronym ∈ r.accounts.map (·.acronym)) := by
      rw [Bool.eq_iff_iff, decide_eq_true_iff, Option.isSome_iff_ne_none, ne_eq,
        h.lookup_eq_none_iff, Classical.not_not]
    rw [step_contains, hiff]
  add_iff acronym name answer := by
    rw [← h.lookup_eq_none_iff]
    cases hfrozen : r.frozen with
    | true =>
      rw [step_add_of_frozen hfrozen]
      simp
    | false =>
      cases hlookup : r.indices.lookup acronym with
      | none =>
        rw [step_add_of_none hfrozen hlookup]
        simp [eq_comm]
      | some i =>
        rw [step_add_of_some hfrozen hlookup]
        simp
  resolve_iff acronym := by
    rw [step_contains]
    cases hlookup : r.indices.lookup acronym with
    | none =>
      rw [step_resolve_of_none hlookup]
      simp
    | some i =>
      rw [step_resolve_of_some hlookup]
      simp
  resolve_eq acronym i := by
    rw [step_find]
    cases hlookup : r.indices.lookup acronym with
    | none =>
      rw [step_resolve_of_none hlookup]
      simp
    | some j =>
      rw [step_resolve_of_some hlookup]
      simp
  unchanged _ _ := step_of_error
  lasting i account haccount os := by
    have hlast : (r.after os).accounts[i]? = some account := by
      obtain ⟨hi, -⟩ := List.getElem?_eq_some_iff.mp haccount
      rw [accounts_after, List.getElem?_append_left hi, haccount]
    constructor
    · rw [step_get, Registry.get_of_getElem? hlast]
      rfl
    · rw [step_find, (h.after os).lookup_eq_some_iff.mpr ⟨account, hlast, rfl⟩]
  closed := accounts_of_frozen

/-- After any operations, failed ones among them, a roster keeps its laws, and its accounts are
those that were added, in that order. It has answered like a registry without a table. -/
theorem lawful_after (os : List Operation) :
    (after {} os).Lawful ∧ (after {} os).accounts = (trace {} os).filterMap added? ∧
      trace {} os = Registry.empty.trace os :=
  ⟨(sound_after os).lawful, accounts_after {} os, Sound.empty.trace_eq os⟩

/-- An acronym that is taken, and one that comes too late. -/
example : (trace {} [.add "AA" "Anna", .add "AA" "Ada", .freeze, .add "BB" "Bert",
    .resolve "BB"]).map (fun p => p.2.toOption) =
    [some (.index 0), none, some .done, none, none] := by
  decide

end Roster

end HouseLedger
