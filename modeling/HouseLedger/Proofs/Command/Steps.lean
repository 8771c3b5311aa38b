import HouseLedger.Command.Run
import HouseLedger.Proofs.Files.Tree

/-!
# Steps

A step of a plan is carried out (`Step.Succeeds`) or fails (`Step.Fails`), and not both
(`Step.succeeds_or_fails`, `Step.Succeeds.perform`, `Step.Fails.perform`). What a list of steps
does follows from that by induction:

* `Command.fault_perform_iff`: its fault is that of the first step that fails;
* `Command.perform_grows`: no directory goes away;
* `Command.same_or_wrote_of_perform`: no file changes but those that a step writes.
-/

namespace HouseLedger

theorem Node.bytes?_eq_some_iff {n : Node} {bytes : ByteArray} :
    n.bytes? = some bytes ↔ n = .file bytes := by
  cases n with
  | missing => simp [Node.bytes?]
  | file found => simp [Node.bytes?]
  | directory => simp [Node.bytes?]

/-- What a file holds that a text was written to. It is begun first, so it is left empty if the
text cannot be put out. -/
def Tree.contents (t : Tree) (text : String) : ByteArray :=
  if t.encodesText text then text.toUTF8 else .empty

theorem Tree.contents_of_encodesText {t : Tree} {text : String} (h : t.encodesText text = true) :
    t.contents text = text.toUTF8 :=
  if_pos h

theorem Tree.contents_of_not_encodesText {t : Tree} {text : String}
    (h : t.encodesText text = false) : t.contents text = .empty :=
  if_neg (Bool.not_eq_true _ ▸ h)

theorem Tree.Grows.contents_eq {t t' : Tree} (h : t.Grows t') (text : String) :
    t.contents text = t'.contents text := by
  rw [contents, contents, h.encodesText_eq]

namespace Command

variable {t t' : Tree} {step : Step} {steps : List Step} {printed shown : String} {fault : Fault}

/-! ## One step -/

namespace Step

/-- The step is carried out on the tree. It leaves another one and prints something. -/
inductive Succeeds (t : Tree) : Step → Tree → String → Prop
  | print {text : String} : t.encodesText (Text.plain text) = true →
      Succeeds t (.print text) t (Text.plain text)
  | ensureDirectory {d : Path} {t' : Tree} : t.ensureDirectory d = .ok t' →
      Succeeds t (.ensureDirectory d) t' ""
  | write {path : Path} {text : String} {t' : Tree} : t.encodesText text = true →
      t.write path.toString (t.contents text) = .ok t' → Succeeds t (.write path text) t' ""

/-- The step fails. A file that it has begun is left. -/
inductive Fails (t : Tree) : Step → Tree → Fault → Prop
  | print {text : String} : t.encodesText (Text.plain text) = false →
      Fails t (.print text) t .notEncodable
  | ensureDirectory {d : Path} {fault : Fault} : t.ensureDirectory d = .error fault →
      Fails t (.ensureDirectory d) t fault
  | write {path : Path} {text : String} {cause : FileFault} :
      t.write path.toString (t.contents text) = .error cause →
      Fails t (.write path text) t (.file cause path.toString)
  | begun {path : Path} {text : String} {t' : Tree} : t.encodesText text = false →
      t.write path.toString (t.contents text) = .ok t' →
      Fails t (.write path text) t' .notEncodable

theorem Succeeds.of_print {text : String} (h : (Step.print text).Succeeds t t' shown) :
    t' = t ∧ shown = Text.plain text := by
  cases h with
  | print _ => exact ⟨rfl, rfl⟩

theorem Succeeds.of_ensureDirectory {d : Path}
    (h : (Step.ensureDirectory d).Succeeds t t' shown) :
    t.ensureDirectory d = .ok t' ∧ shown = "" := by
  cases h with
  | ensureDirectory hmake => exact ⟨hmake, rfl⟩

theorem Succeeds.of_write {path : Path} {text : String}
    (h : (Step.write path text).Succeeds t t' shown) :
    t.write path.toString text.toUTF8 = .ok t' ∧ shown = "" := by
  cases h with
  | write hencodes hwrite => exact ⟨Tree.contents_of_encodesText hencodes ▸ hwrite, rfl⟩

theorem succeeds_or_fails (t : Tree) (step : Step) :
    (∃ t' shown, step.Succeeds t t' shown) ∨ ∃ t' fault, step.Fails t t' fault := by
  cases step with
  | print text =>
    cases hencodes : t.encodesText (Text.plain text) with
    | true => exact .inl ⟨_, _, .print hencodes⟩
    | false => exact .inr ⟨_, _, .print hencodes⟩
  | ensureDirectory d =>
    cases hmake : t.ensureDirectory d with
    | ok t' => exact .inl ⟨_, _, .ensureDirectory hmake⟩
    | error fault => exact .inr ⟨_, _, .ensureDirectory hmake⟩
  | write path text =>
    cases hwrite : t.write path.toString (t.contents text) with
    | error cause => exact .inr ⟨_, _, .write hwrite⟩
    | ok t' =>
      cases hencodes : t.encodesText text with
      | true => exact .inl ⟨_, _, .write hencodes hwrite⟩
      | false => exact .inr ⟨_, _, .begun hencodes hwrite⟩

theorem Succeeds.perform (h : step.Succeeds t t' shown) (printed : String) (steps : List Step) :
    perform t printed (step :: steps) = perform t' (printed ++ shown) steps := by
  cases h with
  | print hencodes => rw [Command.perform, if_pos hencodes]
  | ensureDirectory hmake => rw [Command.perform, hmake, String.append_empty]
  | write hencodes hwrite =>
    rw [Tree.contents_of_encodesText hencodes] at hwrite
    simp only [Command.perform, hencodes, if_true, hwrite, String.append_empty]

theorem Fails.perform (h : step.Fails t t' fault) (printed : String) (steps : List Step) :
    perform t printed (step :: steps) = (t', printed, some fault) := by
  cases h with
  | print hencodes => simp only [Command.perform, hencodes, Bool.false_eq_true, if_false]
  | ensureDirectory hmake => rw [Command.perform, hmake]
  | write hwrite =>
    rw [Tree.contents] at hwrite
    simp only [Command.perform, hwrite]
  | begun hencodes hwrite =>
    rw [Tree.contents_of_not_encodesText hencodes] at hwrite
    simp only [Command.perform, hencodes, Bool.false_eq_true, if_false, hwrite]

theorem Succeeds.not_fails {t₁ t₂ : Tree} (h : step.Succeeds t t₁ shown) :
    ¬ step.Fails t t₂ fault := by
  intro hfails
  have heq := (h.perform "" []).symm.trans (hfails.perform "" [])
  exact Option.some_ne_none fault (congrArg (·.2.2) heq).symm

theorem Succeeds.unique {t₁ t₂ : Tree} {shown' : String} (h : step.Succeeds t t₁ shown)
    (h' : step.Succeeds t t₂ shown') : t₁ = t₂ :=
  congrArg Prod.fst ((h.perform "" []).symm.trans (h'.perform "" []))

theorem Fails.unique {t₁ t₂ : Tree} {fault' : Fault} (h : step.Fails t t₁ fault)
    (h' : step.Fails t t₂ fault') : fault = fault' := by
  have heq := (h.perform "" []).symm.trans (h'.perform "" [])
  exact Option.some_inj.mp (congrArg (·.2.2) heq)

theorem Succeeds.grows (h : step.Succeeds t t' shown) : t.Grows t' := by
  cases h with
  | print _ => exact .refl t
  | ensureDirectory hmake => exact (Tree.made_of_ensureDirectory hmake).adds.toGrows
  | write _ hwrite =>
    obtain ⟨target, -, -, -, rfl⟩ := Tree.write_eq_ok_iff.mp hwrite
    exact (t.sameDirectories_put target _).grows

theorem Fails.grows (h : step.Fails t t' fault) : t.Grows t' := by
  cases h with
  | print _ => exact .refl t
  | ensureDirectory _ => exact .refl t
  | write _ => exact .refl t
  | begun _ hwrite =>
    obtain ⟨target, -, -, -, rfl⟩ := Tree.write_eq_ok_iff.mp hwrite
    exact (t.sameDirectories_put target _).grows

end Step

/-! ## Several steps -/

/-- The steps are carried out up to one that fails with the fault. -/
inductive Interrupted : Tree → List Step → Fault → Prop
  | head {t t' : Tree} {step : Step} {steps : List Step} {fault : Fault} :
      step.Fails t t' fault → Interrupted t (step :: steps) fault
  | tail {t t' : Tree} {step : Step} {steps : List Step} {shown : String} {fault : Fault} :
      step.Succeeds t t' shown → Interrupted t' steps fault → Interrupted t (step :: steps) fault

/-- The fault of steps is that of the first one that fails. -/
theorem fault_perform_iff :
    (perform t printed steps).2.2 = some fault ↔ Interrupted t steps fault := by
  induction steps generalizing t printed with
  | nil =>
    constructor
    · intro h
      cases h
    · intro h
      cases h
  | cons step steps ih =>
    rcases step.succeeds_or_fails t with ⟨t', shown, hstep⟩ | ⟨t', fault', hstep⟩
    · rw [hstep.perform, ih]
      constructor
      · exact .tail hstep
      · intro h
        cases h with
        | head hfails => exact absurd hfails hstep.not_fails
        | tail hstep' h =>
          rw [hstep.unique hstep']
          exact h
    · rw [hstep.perform, Option.some_inj]
      constructor
      · rintro rfl
        exact .head hstep
      · intro h
        cases h with
        | head hfails => exact hstep.unique hfails
        | tail hstep' _ => exact absurd hstep hstep'.not_fails

/-- Steps that are carried out one after the other. -/
theorem exists_succeeds_of_perform {out : String}
    (h : perform t printed (step :: steps) = (t', out, none)) :
    ∃ t₁ shown, step.Succeeds t t₁ shown ∧
      perform t₁ (printed ++ shown) steps = (t', out, none) := by
  rcases step.succeeds_or_fails t with ⟨t₁, shown, hstep⟩ | ⟨t₁, fault, hstep⟩
  · exact ⟨t₁, shown, hstep, (hstep.perform printed steps).symm.trans h⟩
  · exact nomatch (hstep.perform printed steps).symm.trans h

/-- Performing steps takes no directory away. -/
theorem perform_grows (t : Tree) (printed : String) (steps : List Step) :
    t.Grows (perform t printed steps).1 := by
  induction steps generalizing t printed with
  | nil => exact .refl t
  | cons step steps ih =>
    rcases step.succeeds_or_fails t with ⟨t', shown, hstep⟩ | ⟨t', fault, hstep⟩
    · rw [hstep.perform]
      exact hstep.grows.trans (ih t' _)
    · rw [hstep.perform]
      exact hstep.grows

/-! ## Files -/

/-- The step has written the file at the place. -/
def Step.Wrote (step : Step) (t : Tree) (place : Place) : Prop :=
  ∃ path text, step = .write path text ∧ t.locate path.toString = .ok place ∧
    t.look place = .file (t.contents text)

namespace Step

variable {place : Place}

/-- What was written to a path is there. -/
theorem wrote_of_write {path : Path} {text : String}
    (h : t.write path.toString (t.contents text) = .ok t') :
    (t'.look place).bytes? = (t.look place).bytes? ∨ (Step.write path text).Wrote t' place := by
  obtain ⟨target, htarget, hfree, -, rfl⟩ := Tree.write_eq_ok_iff.mp h
  by_cases heq : place = target
  · subst heq
    have hgrows := (t.sameDirectories_put place (t.contents text)).grows
    refine .inr ⟨path, text, rfl, hgrows.locate htarget, ?_⟩
    exact (Tree.look_put_self hfree).trans (congrArg Node.file (hgrows.contents_eq text))
  · rw [Tree.look_put_of_ne heq]
    exact .inl rfl

theorem Succeeds.same_or_wrote (h : step.Succeeds t t' shown) (place : Place) :
    (t'.look place).bytes? = (t.look place).bytes? ∨ step.Wrote t' place := by
  cases h with
  | print _ => exact .inl rfl
  | ensureDirectory hmake => exact .inl ((Tree.made_of_ensureDirectory hmake).adds.files place)
  | write _ hwrite => exact wrote_of_write hwrite

theorem Fails.same_or_wrote (h : step.Fails t t' fault) (place : Place) :
    (t'.look place).bytes? = (t.look place).bytes? ∨ step.Wrote t' place := by
  cases h with
  | print _ => exact .inl rfl
  | ensureDirectory _ => exact .inl rfl
  | write _ => exact .inl rfl
  | begun _ hwrite => exact wrote_of_write hwrite

/-- A file that a step has written is its file also later, as long as it stays the same. -/
theorem Wrote.of_grows (h : step.Wrote t place) (hgrows : t.Grows t')
    (hsame : (t'.look place).bytes? = (t.look place).bytes?) : step.Wrote t' place := by
  obtain ⟨path, text, hstep, hlocate, hlook⟩ := h
  refine ⟨path, text, hstep, hgrows.locate hlocate, ?_⟩
  rw [hlook] at hsame
  rw [← hgrows.contents_eq]
  exact Node.bytes?_eq_some_iff.mp hsame

end Step

/-- Performing steps leaves a file as it is, unless one of them has written it. -/
theorem same_or_wrote_of_perform (t : Tree) (printed : String) (steps : List Step)
    (place : Place) :
    ((perform t printed steps).1.look place).bytes? = (t.look place).bytes? ∨
      ∃ step ∈ steps, step.Wrote (perform t printed steps).1 place := by
  induction steps generalizing t printed with
  | nil => exact .inl rfl
  | cons step steps ih =>
    rcases step.succeeds_or_fails t with ⟨t', shown, hstep⟩ | ⟨t', fault, hstep⟩
    · rw [hstep.perform]
      rcases ih t' (printed ++ shown) with hsame | ⟨later, hlater, hwrote⟩
      · rcases hstep.same_or_wrote place with hsame' | hwrote
        · exact .inl (hsame.trans hsame')
        · exact .inr ⟨step, List.mem_cons_self,
            hwrote.of_grows (perform_grows t' _ steps) hsame⟩
      · exact .inr ⟨later, List.mem_cons_of_mem step hlater, hwrote⟩
    · rw [hstep.perform]
      exact (hstep.same_or_wrote place).imp_right fun hwrote =>
        ⟨step, List.mem_cons_self, hwrote⟩

end Command

end HouseLedger
