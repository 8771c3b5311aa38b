import HouseLedger.Files.Tree
import HouseLedger.Proofs.Files.Path
import HouseLedger.Proofs.Outcome

/-!
# Files of a tree

Where a path leads depends on the directories of a tree alone (`Tree.SameDirectories.locate_iff`),
and directories that are added change nothing for the paths that lead somewhere
(`Tree.Grows.locate`). Writing files leaves the directories as they are, and making directories the
files (`Tree.made_of_ensureDirectory`). So each of several files can be written without regard to
the others, unless two paths lead to one place: what is there in the end is what was written there
last (`Tree.nodeAt_of_writeAll`).

A path that goes on from a directory and does not lead upwards leads to a place in that directory
(`Tree.place_of_leadsDown`), and two such paths lead to two places if they are different
(`Tree.eq_of_locate`).
-/

namespace HouseLedger

open Outcome

namespace Tree

variable {t t' : Tree} {place place' : Place} {path : String} {bytes : ByteArray}

/-! ## Directories -/

theorem look_eq_directory_iff : t.look place = .directory ↔ place = [] ∨ place ∈ t.directories := by
  unfold look
  split
  · next h => exact ⟨fun _ => h, fun _ => rfl⟩
  · next h =>
    refine ⟨fun hlook => ?_, fun hdir => absurd hdir h⟩
    cases hfile : t.files.lookup place with
    | none => simp [hfile] at hlook
    | some bytes => simp [hfile] at hlook

/-- The second tree has all directories of the first, and the same working directory. The same
texts can be put out. -/
structure Grows (t t' : Tree) : Prop where
  here : t.here = t'.here
  directories_subset : t.directories ⊆ t'.directories
  encodes : t.encodes = t'.encodes

namespace Grows

theorem refl (t : Tree) : t.Grows t := ⟨rfl, List.Subset.refl _, rfl⟩

theorem trans {t'' : Tree} (h : t.Grows t') (h' : t'.Grows t'') : t.Grows t'' :=
  ⟨h.here.trans h'.here, List.Subset.trans h.directories_subset h'.directories_subset,
    h.encodes.trans h'.encodes⟩

theorem encodesText_eq (h : t.Grows t') (text : String) :
    t.encodesText text = t'.encodesText text := by
  rw [encodesText, encodesText, h.encodes]

theorem look (h : t.Grows t') (hlook : t.look place = .directory) :
    t'.look place = .directory := by
  rw [look_eq_directory_iff] at hlook ⊢
  exact hlook.imp_right fun hmem => h.directories_subset hmem

end Grows

/-- The trees differ in their files only. -/
structure SameDirectories (t t' : Tree) : Prop where
  here : t.here = t'.here
  directories : t.directories = t'.directories
  encodes : t.encodes = t'.encodes

namespace SameDirectories

theorem refl (t : Tree) : t.SameDirectories t := ⟨rfl, rfl, rfl⟩

theorem symm (h : t.SameDirectories t') : t'.SameDirectories t :=
  ⟨h.here.symm, h.directories.symm, h.encodes.symm⟩

theorem trans {t'' : Tree} (h : t.SameDirectories t') (h' : t'.SameDirectories t'') :
    t.SameDirectories t'' :=
  ⟨h.here.trans h'.here, h.directories.trans h'.directories, h.encodes.trans h'.encodes⟩

theorem grows (h : t.SameDirectories t') : t.Grows t' :=
  ⟨h.here, h.directories ▸ List.Subset.refl _, h.encodes⟩

end SameDirectories

/-! ## Following paths -/

theorem follow_of_directory (h : t.look place = .directory) (piece : String) :
    t.follow place piece =
      if !Path.isName piece then .ok place
      else if piece = ".." then .ok place.dropLast
      else if maxNameSize < piece.utf8ByteSize then .error .nameTooLong
      else .ok (place ++ [piece]) := by
  rw [follow, h]

theorem directory_of_follow {piece : String} (h : t.follow place piece = .ok place') :
    t.look place = .directory := by
  unfold follow at h
  split at h
  · cases h
  · cases h
  · assumption

/-- A name leads from a directory to a place in it. -/
theorem eq_of_follow {piece : String} (h : t.follow place piece = .ok place')
    (hname : Path.isName piece = true) (hdots : piece ≠ "..") : place' = place ++ [piece] := by
  rw [follow_of_directory (directory_of_follow h), hname, if_neg hdots] at h
  simp only [Bool.not_true, Bool.false_eq_true, if_false] at h
  split at h
  · cases h
  · exact (Except.ok.inj h).symm

/-- A piece that names nothing leads nowhere else. -/
theorem eq_of_follow_of_not_isName {piece : String} (h : t.follow place piece = .ok place')
    (hname : ¬ Path.isName piece = true) : place' = place := by
  rw [Bool.not_eq_true] at hname
  rw [follow_of_directory (directory_of_follow h), hname] at h
  exact (Except.ok.inj h).symm

theorem eq_of_foldlM_follow {names : List String} (h : names.foldlM t.follow place = .ok place')
    (hnames : ∀ name ∈ names, Path.isName name = true ∧ name ≠ "..") : place' = place ++ names := by
  induction names generalizing place with
  | nil =>
    cases h
    exact (List.append_nil _).symm
  | cons name names ih =>
    obtain ⟨hname, hnames⟩ := List.forall_mem_cons.mp hnames
    rw [List.foldlM_cons] at h
    obtain ⟨next, hnext, h⟩ := bind_eq_ok.mp h
    rw [ih h hnames, eq_of_follow hnext hname.1 hname.2, List.append_assoc, List.singleton_append]

theorem foldlM_filter_of_foldlM_follow {pieces : List String}
    (h : pieces.foldlM t.follow place = .ok place') :
    (pieces.filter Path.isName).foldlM t.follow place = .ok place' := by
  induction pieces generalizing place with
  | nil => exact h
  | cons piece pieces ih =>
    rw [List.foldlM_cons] at h
    obtain ⟨next, hnext, h⟩ := bind_eq_ok.mp h
    by_cases hname : Path.isName piece = true
    · rw [List.filter_cons_of_pos hname, List.foldlM_cons, hnext, bind_ok]
      exact ih h
    · rw [List.filter_cons_of_neg hname, ← eq_of_follow_of_not_isName hnext hname]
      exact ih h

/-- A path is followed along its names from where it begins. -/
theorem foldlM_of_locate {p : Path} (hp : p.Normal) (h : t.locate p.toString = .ok place) :
    p.parts.foldlM t.follow (if p.start = .here then t.here else []) = .ok place := by
  unfold Tree.locate at h
  split at h
  · cases h
  · split at h
    · cases h
    · have hread := hp.ofString_toString_eq
      rw [← hread]
      exact foldlM_filter_of_foldlM_follow h

namespace Grows

theorem follow (h : t.Grows t') {piece : String} (hfollow : t.follow place piece = .ok place') :
    t'.follow place piece = .ok place' := by
  have hdirectory := directory_of_follow hfollow
  rw [follow_of_directory hdirectory] at hfollow
  rwa [follow_of_directory (h.look hdirectory)]

theorem foldlM_follow (h : t.Grows t') {pieces : List String}
    (hfollow : pieces.foldlM t.follow place = .ok place') :
    pieces.foldlM t'.follow place = .ok place' := by
  induction pieces generalizing place with
  | nil => exact hfollow
  | cons piece pieces ih =>
    rw [List.foldlM_cons] at hfollow ⊢
    obtain ⟨next, hnext, hfollow⟩ := bind_eq_ok.mp hfollow
    rw [h.follow hnext, bind_ok]
    exact ih hfollow

/-- A path that leads somewhere leads there also when there are more directories. -/
theorem locate (h : t.Grows t') (hlocate : t.locate path = .ok place) :
    t'.locate path = .ok place := by
  unfold Tree.locate at hlocate ⊢
  rw [← h.here]
  split at hlocate
  · cases hlocate
  · next hne =>
    rw [if_neg hne]
    split at hlocate
    · cases hlocate
    · next hshort =>
      rw [if_neg hshort]
      exact h.foldlM_follow hlocate

end Grows

/-- Where a path leads depends on the directories alone. -/
theorem SameDirectories.locate_iff (h : t.SameDirectories t') :
    t.locate path = .ok place ↔ t'.locate path = .ok place :=
  ⟨h.grows.locate, h.symm.grows.locate⟩

/-! ## Paths that stay in a directory -/

variable {d p p' : Path} {names names' : List String}

theorem exists_base_of_locate (hd : d.Normal) (h : d.LeadsDown names p)
    (hlocate : t.locate p.toString = .ok place) :
    ∃ base, d.parts.foldlM t.follow (if d.start = .here then t.here else []) = .ok base ∧
      place = base ++ names := by
  have hplace := foldlM_of_locate (h.normal hd) hlocate
  rw [h.start_eq, h.parts_eq, List.foldlM_append] at hplace
  obtain ⟨base, hbase, hplace⟩ := bind_eq_ok.mp hplace
  exact ⟨base, hbase, eq_of_foldlM_follow hplace fun name hname =>
    ⟨h.isName hname, h.ne_dots name hname⟩⟩

/-- The place is in the directory, along the names. -/
theorem place_of_leadsDown (hd : d.Normal) (h : d.LeadsDown names p) {base : Place}
    (hbase : t.locate d.toString = .ok base) (hlocate : t.locate p.toString = .ok place) :
    place = base ++ names := by
  obtain ⟨base', hbase', hplace⟩ := exists_base_of_locate hd h hlocate
  rw [hplace, ok_unique hbase' (foldlM_of_locate hd hbase)]

/-- Two paths in one directory that lead to one place are the same. -/
theorem eq_of_locate (hd : d.Normal) (h : d.LeadsDown names p) (h' : d.LeadsDown names' p')
    (hlocate : t.locate p.toString = .ok place) (hlocate' : t.locate p'.toString = .ok place) :
    p = p' := by
  obtain ⟨base, hbase, hplace⟩ := exists_base_of_locate hd h hlocate
  obtain ⟨base', hbase', hplace'⟩ := exists_base_of_locate hd h' hlocate'
  obtain rfl := ok_unique hbase hbase'
  obtain rfl := List.append_cancel_left (hplace.symm.trans hplace')
  exact h.unique h'

/-! ## Reading and writing -/

theorem nodeAt_eq_file_iff : t.nodeAt path = .file bytes ↔
    ∃ place, t.locate path = .ok place ∧ t.look place = .file bytes := by
  rw [nodeAt]
  cases t.locate path with
  | error fault => simp
  | ok place => simp

/-- A read that fails tells the path of a file that cannot be opened, or else no path. -/
theorem eq_of_read_eq_error {fault : Fault} (h : t.read path = .error fault) :
    (∃ cause, fault = .file cause path) ∨ ∃ cause, fault = .reading cause := by
  rcases bind_eq_error.mp h with h | ⟨⟨place, found⟩, -, h⟩
  · obtain ⟨cause, -, rfl⟩ := mapError_eq_error.mp h
    exact .inl ⟨cause, rfl⟩
  · dsimp only at h
    split at h
    · next cause _ =>
      cases h
      exact .inr ⟨cause, rfl⟩
    · cases h

/-- A file that the user may read is read, whatever comes of it. -/
theorem read?_eq_some_iff {found : Except Fault ByteArray} : t.read? path = some found ↔
    (t.nodeAt path).isFile = true ∧ t.isBarred path = false ∧ t.read path = found := by
  unfold read?
  split
  · next h =>
    rw [Bool.and_eq_true, Bool.not_eq_true'] at h
    rw [Option.some_inj]
    exact ⟨fun heq => ⟨h.1, h.2, heq⟩, fun heq => heq.2.2⟩
  · next h =>
    rw [Bool.and_eq_true, Bool.not_eq_true'] at h
    exact ⟨(nomatch ·), fun heq => absurd ⟨heq.1, heq.2.1⟩ h⟩

theorem write_eq_ok_iff : t.write path bytes = .ok t' ↔
    ∃ place, t.locate path = .ok place ∧ t.look place ≠ .directory ∧
      t.refuses .writing place = none ∧ t' = t.put place bytes := by
  unfold write
  rw [bind_eq_ok]
  refine exists_congr fun place => and_congr_right fun _ => ?_
  cases t.look place with
  | directory => simp [throw_eq]
  | missing =>
    cases t.refuses .writing place with
    | none => simp [pure_eq, eq_comm]
    | some fault => simp [throw_eq]
  | file found =>
    cases t.refuses .writing place with
    | none => simp [pure_eq, eq_comm]
    | some fault => simp [throw_eq]

theorem sameDirectories_put (t : Tree) (place : Place) (bytes : ByteArray) :
    t.SameDirectories (t.put place bytes) :=
  ⟨rfl, rfl, rfl⟩

/-- What is put in a place is there. -/
theorem look_put_self (h : t.look place ≠ .directory) :
    (t.put place bytes).look place = .file bytes := by
  have hput : (t.put place bytes).files.lookup place = some bytes := List.lookup_cons_self
  rw [ne_eq, look_eq_directory_iff, (sameDirectories_put t place bytes).directories] at h
  rw [look, if_neg h, hput]

/-- And nothing changes elsewhere. -/
theorem look_put_of_ne (h : place' ≠ place) : (t.put place bytes).look place' = t.look place' := by
  have hlookup (files : List (Place × ByteArray)) :
      (files.filter (·.1 ≠ place)).lookup place' = files.lookup place' := by
    induction files with
    | nil => rfl
    | cons file files ih =>
      obtain ⟨found, bytes⟩ := file
      by_cases hfound : found = place
      · rw [List.filter_cons_of_neg (by simp [hfound]), ih, List.lookup_cons, hfound,
          beq_false_of_ne h]
      · rw [List.filter_cons_of_pos (by simp [hfound]), List.lookup_cons, List.lookup_cons, ih]
  have hput : (t.put place bytes).files.lookup place' = t.files.lookup place' := by
    rw [put, List.lookup_cons, beq_false_of_ne h]
    exact hlookup t.files
  rw [look, look, hput]
  rfl

/-- Writes files one after the other. -/
def writeAll (t : Tree) (files : List (String × ByteArray)) : Except FileFault Tree :=
  files.foldlM (fun t file => t.write file.1 file.2) t

variable {files : List (String × ByteArray)}

theorem sameDirectories_of_writeAll (h : t.writeAll files = .ok t') : t.SameDirectories t' := by
  induction files generalizing t with
  | nil =>
    cases h
    exact .refl _
  | cons file files ih =>
    rw [writeAll, List.foldlM_cons] at h
    obtain ⟨next, hnext, h⟩ := bind_eq_ok.mp h
    obtain ⟨place, -, -, -, rfl⟩ := write_eq_ok_iff.mp hnext
    exact (sameDirectories_put t place file.2).trans (ih h)

/-- A place that no path leads to is left alone. -/
theorem look_of_writeAll (h : t.writeAll files = .ok t')
    (hother : ∀ file ∈ files, t.locate file.1 ≠ .ok place) : t'.look place = t.look place := by
  induction files generalizing t with
  | nil =>
    cases h
    rfl
  | cons file files ih =>
    obtain ⟨hfile, hfiles⟩ := List.forall_mem_cons.mp hother
    rw [writeAll, List.foldlM_cons] at h
    obtain ⟨next, hnext, h⟩ := bind_eq_ok.mp h
    obtain ⟨target, htarget, -, -, rfl⟩ := write_eq_ok_iff.mp hnext
    have hsame := sameDirectories_put t target file.2
    rw [ih h fun other hother => mt hsame.locate_iff.mpr (hfiles other hother)]
    exact look_put_of_ne fun heq => hfile (heq ▸ htarget)

/-- A path leads to what was written last to its place. -/
theorem nodeAt_of_writeAll {before after : List (String × ByteArray)}
    (h : t.writeAll (before ++ (path, bytes) :: after) = .ok t')
    (hlast : ∀ other ∈ after, ∀ place, t.locate path = .ok place →
      t.locate other.1 ≠ .ok place) : t'.nodeAt path = .file bytes := by
  rw [writeAll, List.foldlM_append] at h
  obtain ⟨t₁, hbefore, h⟩ := bind_eq_ok.mp h
  rw [List.foldlM_cons] at h
  obtain ⟨t₂, hwrite, hafter⟩ := bind_eq_ok.mp h
  have hsame : t.SameDirectories t₁ := sameDirectories_of_writeAll hbefore
  obtain ⟨place, hplace, hfree, -, rfl⟩ := write_eq_ok_iff.mp hwrite
  have hsame' := hsame.trans (sameDirectories_put t₁ place bytes)
  have hkept : t'.look place = (t₁.put place bytes).look place :=
    look_of_writeAll hafter fun other hother hlocate =>
      hlast other hother place (hsame.locate_iff.mpr hplace) (hsame'.locate_iff.mpr hlocate)
  refine nodeAt_eq_file_iff.mpr ⟨place, ?_, hkept.trans (look_put_self hfree)⟩
  exact ((sameDirectories_put t₁ place bytes).trans
    (sameDirectories_of_writeAll hafter)).grows.locate hplace

/-! ## Making directories -/

/-- The second tree may have more directories than the first, and has the same files. -/
structure AddsDirectories (t t' : Tree) : Prop extends Grows t t' where
  files : ∀ place, (t'.look place).bytes? = (t.look place).bytes?

namespace AddsDirectories

theorem refl (t : Tree) : t.AddsDirectories t := ⟨.refl t, fun _ => rfl⟩

theorem trans {t'' : Tree} (h : t.AddsDirectories t') (h' : t'.AddsDirectories t'') :
    t.AddsDirectories t'' :=
  ⟨h.toGrows.trans h'.toGrows, fun place => (h'.files place).trans (h.files place)⟩

end AddsDirectories

theorem makeDirectory_eq_ok_iff : t.makeDirectory path = .ok t' ↔
    ∃ place, t.locate path = .ok place ∧ t.look place = .missing ∧
      t.refuses .making place = none ∧ t' = { t with directories := place :: t.directories } := by
  unfold makeDirectory
  rw [bind_eq_ok]
  refine exists_congr fun place => and_congr_right fun _ => ?_
  cases t.look place with
  | missing =>
    cases t.refuses .making place with
    | none => simp [pure_eq, eq_comm]
    | some fault => simp [throw_eq]
  | directory => simp [throw_eq]
  | file found => simp [throw_eq]

theorem addsDirectories_cons (h : t.look place = .missing) :
    t.AddsDirectories { t with directories := place :: t.directories } := by
  refine ⟨⟨rfl, List.subset_cons_self _ _, rfl⟩, fun place' => ?_⟩
  by_cases heq : place' = place
  · subst heq
    rw [h, look, if_pos (.inr List.mem_cons_self)]
    rfl
  · simp only [look, List.mem_cons, heq, false_or]

/-- The second tree is the first one with a directory at the path, and maybe with more of them. -/
structure Made (t : Tree) (path : String) (t' : Tree) : Prop where
  adds : t.AddsDirectories t'
  leads : ∃ place, t'.locate path = .ok place

theorem made_of_makeDirectory (h : t.makeDirectory path = .ok t') : t.Made path t' := by
  obtain ⟨place, hplace, hmissing, -, rfl⟩ := makeDirectory_eq_ok_iff.mp h
  have hadds := addsDirectories_cons hmissing
  exact ⟨hadds, place, hadds.toGrows.locate hplace⟩

theorem exists_locate_of_isDirectory (h : (t.nodeAt path).isDirectory = true) :
    ∃ place, t.locate path = .ok place := by
  unfold nodeAt at h
  cases hlocate : t.locate path with
  | ok place => exact ⟨place, rfl⟩
  | error fault =>
    rw [hlocate] at h
    cases h

theorem made_of_makeIfNone (h : t.makeIfNone path = .ok t') : t.Made path t' := by
  unfold makeIfNone at h
  split at h
  · next hmake =>
    cases h
    exact made_of_makeDirectory hmake
  · cases h
  · split at h
    · next hdirectory =>
      cases h
      exact ⟨.refl t, exists_locate_of_isDirectory hdirectory⟩
    · cases h

theorem made_of_ensureAlong {start : Path.Start} {names : List String}
    (h : t.ensureAlong start names = .ok t') :
    t.Made (Path.mk start names.reverse).toString t' := by
  induction names generalizing t t' with
  | nil =>
    unfold ensureAlong at h
    dsimp only at h
    split at h
    · next hmake =>
      cases h
      exact made_of_makeIfNone hmake
    · next heq => cases heq
    · cases h
  | cons name earlier ih =>
    unfold ensureAlong at h
    dsimp only at h
    split at h
    · next hmake =>
      cases h
      exact made_of_makeIfNone hmake
    · next heq =>
      cases heq
      -- The directories that lead to it come first.
      obtain ⟨t₁, hearlier, h⟩ := bind_eq_ok.mp h
      have hmade := made_of_makeIfNone (mapError_eq_ok.mp h)
      exact ⟨(ih hearlier).adds.trans hmade.adds, hmade.leads⟩
    · cases h

/-- Making a directory along with those that lead to it changes no file. -/
theorem made_of_ensureDirectory {d : Path} (h : t.ensureDirectory d = .ok t') :
    t.Made d.toString t' := by
  have hmade := made_of_ensureAlong h
  rwa [List.reverse_reverse] at hmade

end Tree

end HouseLedger
