import HouseLedger.Files.Path
import HouseLedger.Report.StatementText
import Mathlib.Tactic

/-!
# Written paths

A path in normal form (`Path.Normal`) can be read off from its written form
(`Path.Normal.ofString_toString_eq`). Paths that are read are normal, and so is what is made of
normal paths. A path that is put behind another one goes on from it, step by step, unless it begins
at the root or leads upwards (`Path.LeadsDown`).

The name of a statement's file is the title of the statement with its points replaced. It may
hold slashes, so that it is a path of several names: those between the slashes, but for empty ones,
and the last with the extension (`Report.exists_fileNames_eq`). None of them leads upwards
(`Report.ne_dots_of_mem_fileNames`).
-/

namespace HouseLedger

/-! ## Cutting at slashes -/

/-- A piece between separators has characters of the text, in their order, and no separator. -/
theorem sublist_of_mem_splitOn {x : Char} {text piece : List Char}
    (h : piece ∈ text.splitOn x) : piece.Sublist text ∧ x ∉ piece := by
  induction text generalizing piece with
  | nil =>
    rw [List.splitOn_nil, List.mem_singleton] at h
    subst h
    exact ⟨.refl _, List.not_mem_nil⟩
  | cons c text ih =>
    rw [List.splitOn, List.splitOnP_cons_eq_if_modifyHead] at h
    split at h
    · rcases List.mem_cons.mp h with rfl | h
      · exact ⟨List.nil_sublist _, List.not_mem_nil⟩
      · exact ⟨(ih h).1.cons c, (ih h).2⟩
    · next hc =>
      obtain ⟨first, more, hsplit⟩ :=
        List.exists_cons_of_ne_nil (List.splitOnP_ne_nil (· == x) text)
      rw [hsplit, List.modifyHead_cons, List.mem_cons] at h
      rcases h with rfl | h
      · obtain ⟨hsublist, hnot⟩ := ih (hsplit ▸ List.mem_cons_self)
        refine ⟨hsublist.cons_cons c, fun hmem => ?_⟩
        rcases List.mem_cons.mp hmem with rfl | hmem
        · exact hc (beq_self_eq_true x)
        · exact hnot hmem
      · obtain ⟨hsublist, hnot⟩ := ih (hsplit ▸ List.mem_cons_of_mem _ h)
        exact ⟨hsublist.cons c, hnot⟩

/-- Text without separators makes the last piece longer. -/
theorem exists_splitOn_append {x : Char} {more : List Char} (h : x ∉ more) (text : List Char) :
    ∃ before last, text.splitOn x = before ++ [last] ∧
      (text ++ more).splitOn x = before ++ [last ++ more] := by
  induction text with
  | nil =>
    refine ⟨[], [], List.splitOn_nil x, ?_⟩
    exact List.splitOnP_eq_singleton fun c hc => beq_false_of_ne (by rintro rfl; exact h hc)
  | cons c text ih =>
    obtain ⟨before, last, htext, hboth⟩ := ih
    rw [List.cons_append, List.splitOn, List.splitOnP_cons_eq_if_modifyHead, List.splitOn,
      List.splitOnP_cons_eq_if_modifyHead, ← List.splitOn, ← List.splitOn, htext, hboth]
    split
    · exact ⟨[] :: before, last, rfl, rfl⟩
    · cases before with
      | nil => exact ⟨[], c :: last, rfl, rfl⟩
      | cons first before => exact ⟨(c :: first) :: before, last, rfl, rfl⟩

namespace Path

/-! ## Normal paths -/

/-- No name of the path is empty, a point, or has a slash. -/
structure Normal (p : Path) : Prop where
  isName : ∀ part ∈ p.parts, isName part = true
  slash_notMem : ∀ part ∈ p.parts, '/' ∉ part.toList

/-- A name of a path that is read is a part of the text without slashes. -/
theorem sublist_of_mem_ofString {text part : String} (h : part ∈ (ofString text).parts) :
    part.toList.Sublist text.toList ∧ '/' ∉ part.toList := by
  obtain ⟨piece, hpiece, rfl⟩ := List.mem_map.mp (List.mem_filter.mp h).1
  rw [String.toList_ofList]
  exact sublist_of_mem_splitOn hpiece

theorem normal_ofString (text : String) : (ofString text).Normal :=
  ⟨fun _ hpart => (List.mem_filter.mp hpart).2, fun _ hpart => (sublist_of_mem_ofString hpart).2⟩

/-- A name is a path of one step. -/
theorem ofString_of_isName {name : String} (hname : isName name = true)
    (hslash : '/' ∉ name.toList) : ofString name = ⟨.here, [name]⟩ := by
  have hsplit : name.toList.splitOn '/' = [name.toList] :=
    List.splitOnP_eq_singleton fun c hc => beq_false_of_ne (by rintro rfl; exact hslash hc)
  have hpieces : pieces name = [name] := by
    rw [pieces, hsplit, List.map_singleton, String.ofList_toList]
  have hstart : Start.ofString name = .here := by
    unfold Start.ofString
    cases htext : name.toList with
    | nil => rfl
    | cons c text =>
      have hc : c ≠ '/' := by
        rintro rfl
        exact hslash (htext ▸ List.mem_cons_self)
      simp [hc]
  rw [ofString, hpieces, hstart, List.filter_cons_of_pos hname, List.filter_nil]

theorem Normal.parent {p : Path} (h : p.Normal) : p.parent.Normal :=
  ⟨fun part hpart => h.isName part (List.mem_of_mem_dropLast hpart),
    fun part hpart => h.slash_notMem part (List.mem_of_mem_dropLast hpart)⟩

theorem Normal.join {p q : Path} (hp : p.Normal) (hq : q.Normal) : (p.join q).Normal := by
  unfold Path.join
  split
  · exact hq
  · exact ⟨List.forall_mem_append.mpr ⟨hp.isName, hq.isName⟩,
      List.forall_mem_append.mpr ⟨hp.slash_notMem, hq.slash_notMem⟩⟩

/-! ## The written form -/

/-- The pieces that stand for the start of a path. -/
def Start.pieces : Start → List String
  | .here => []
  | .root => [""]
  | .doubleRoot => ["", ""]

theorem toList_toString {p : Path} (hne : p.parts ≠ []) :
    p.toString.toList =
      p.start.toString.toList ++ ['/'].intercalate (p.parts.map String.toList) := by
  rw [Path.toString, if_neg (by simp [hne]), String.toList_append, String.toList_intercalate]
  rfl

/-- The names are the pieces of the written path, behind those of its start. -/
theorem Normal.pieces_toString {p : Path} (h : p.Normal) (hne : p.parts ≠ []) :
    pieces p.toString = p.start.pieces ++ p.parts := by
  have hnames : (['/'].intercalate (p.parts.map String.toList)).splitOn '/' =
      p.parts.map String.toList := by
    refine List.splitOn_intercalate '/' (fun piece hpiece => ?_) (by simpa using hne)
    obtain ⟨part, hpart, rfl⟩ := List.mem_map.mp hpiece
    exact h.slash_notMem part hpart
  have hback : (p.parts.map String.toList).map String.ofList = p.parts := by
    rw [List.map_map]
    exact (List.map_congr_left fun part _ => String.ofList_toList).trans (List.map_id _)
  have hslash (text : List Char) : ('/' :: text).splitOn '/' = [] :: text.splitOn '/' := by
    rw [List.splitOn, List.splitOnP_cons_eq_if_modifyHead]
    exact if_pos rfl
  rw [pieces, toList_toString hne]
  cases p.start with
  | here => rw [show Start.here.toString.toList = [] from rfl, List.nil_append, hnames, hback]; rfl
  | root =>
    rw [show Start.root.toString.toList = ['/'] from rfl, List.singleton_append, hslash, hnames,
      List.map_cons, hback]
    rfl
  | doubleRoot =>
    rw [show Start.doubleRoot.toString.toList = ['/', '/'] from rfl, List.cons_append,
      List.singleton_append, hslash, hslash, hnames, List.map_cons, List.map_cons, hback]
    rfl

/-- A normal path is written with the slashes of its start and no more in front. -/
theorem Normal.start_ofString {p : Path} (h : p.Normal) (hne : p.parts ≠ []) :
    Start.ofString p.toString = p.start := by
  obtain ⟨part, more, hparts⟩ := List.exists_cons_of_ne_nil hne
  have hpart : part ∈ p.parts := hparts ▸ List.mem_cons_self
  obtain ⟨c, cs, hc⟩ : ∃ c cs, part.toList = c :: cs := by
    refine List.exists_cons_of_ne_nil fun hnil => ?_
    have hname := h.isName part hpart
    rw [String.toList_eq_nil_iff.mp hnil] at hname
    cases hname
  have hslash : c ≠ '/' := by
    rintro rfl
    exact h.slash_notMem part hpart (hc ▸ List.mem_cons_self)
  obtain ⟨tail, htail⟩ : ∃ tail, ['/'].intercalate (p.parts.map String.toList) = c :: tail := by
    rw [hparts, List.map_cons, hc]
    cases more with
    | nil => exact ⟨cs, by simp⟩
    | cons next more => exact ⟨_, by rw [List.map_cons, List.intercalate_cons_cons]; rfl⟩
  rw [Start.ofString, toList_toString hne, htail]
  cases p.start with
  | here =>
    simp [Start.toString, hslash]
  | root =>
    simp [Start.toString, hslash]
  | doubleRoot =>
    simp [Start.toString, hslash]

/-- A normal path is read back from its written form. -/
theorem Normal.ofString_toString_eq {p : Path} (h : p.Normal) : ofString p.toString = p := by
  by_cases hne : p.parts = []
  · obtain ⟨start, parts⟩ := p
    obtain rfl : parts = [] := hne
    cases start with
    | here => decide
    | root => decide
    | doubleRoot => decide
  · have hstart : p.start.pieces.filter Path.isName = [] := by
      cases p.start with
      | here => rfl
      | root => rfl
      | doubleRoot => rfl
    rw [ofString, h.start_ofString hne, h.pieces_toString hne, List.filter_append, hstart,
      List.nil_append, List.filter_eq_self.mpr h.isName]

/-! ## Paths behind paths -/

/-- The path `p` goes on from `d` along the names. Each of them is a path of one step, so that it
begins where the names before it have led, and none of the steps leads upwards. -/
structure LeadsDown (d : Path) (names : List String) (p : Path) : Prop where
  start_eq : p.start = d.start
  parts_eq : p.parts = d.parts ++ names
  step : ∀ name ∈ names, ofString name = ⟨.here, [name]⟩
  ne_dots : ∀ name ∈ names, name ≠ ".."

theorem Normal.leadsDown_join (d : Path) {q : Path} (hq : q.Normal) (hhere : q.isAbsolute = false)
    (hdots : ∀ name ∈ q.parts, name ≠ "..") : d.LeadsDown q.parts (d.join q) := by
  have hjoin : d.join q = { d with parts := d.parts ++ q.parts } := by
    rw [Path.join, hhere]
    rfl
  rw [hjoin]
  exact ⟨rfl, rfl, fun name hname =>
    ofString_of_isName (hq.isName name hname) (hq.slash_notMem name hname), hdots⟩

namespace LeadsDown

variable {d p p' : Path} {names : List String}

theorem mem_parts (h : d.LeadsDown names p) {name : String} (hname : name ∈ names) :
    name ∈ (ofString name).parts :=
  h.step name hname ▸ List.mem_singleton_self name

theorem isName (h : d.LeadsDown names p) {name : String} (hname : name ∈ names) :
    Path.isName name = true :=
  (normal_ofString name).isName name (h.mem_parts hname)

theorem normal (h : d.LeadsDown names p) (hd : d.Normal) : p.Normal := by
  constructor
  · rw [h.parts_eq]
    exact List.forall_mem_append.mpr ⟨hd.isName, fun name hname => h.isName hname⟩
  · rw [h.parts_eq]
    exact List.forall_mem_append.mpr ⟨hd.slash_notMem, fun name hname =>
      (normal_ofString name).slash_notMem name (h.mem_parts hname)⟩

theorem unique (h : d.LeadsDown names p) (h' : d.LeadsDown names p') : p = p' := by
  cases p
  cases p'
  rw [mk.injEq]
  exact ⟨h.start_eq.trans h'.start_eq.symm, h.parts_eq.trans h'.parts_eq.symm⟩

end LeadsDown

end Path

/-! ## The files of statements -/

namespace Report

/-- The title of a statement, with underscores for its points. -/
def plainTitle (s : Statement) : String :=
  String.ofList ((title s).toList.map fun c => if c = '.' then '_' else c)

/-- The names along the path of a statement's file. -/
def fileNames (s : Statement) : List String := (Path.ofString (fileName s)).parts

theorem fileName_eq_append (s : Statement) : fileName s = plainTitle s ++ ".txt" := rfl

theorem point_notMem_plainTitle (s : Statement) : '.' ∉ (plainTitle s).toList := by
  rw [plainTitle, String.toList_ofList, List.mem_map]
  rintro ⟨c, -, hc⟩
  split at hc
  · cases hc
  · next hne => exact hne hc

/-- The name of a statement's file tells the names of accounts apart, but not a point from an
underscore. -/
theorem fileName_eq_iff {s s' : Statement} (hdate : s.referenceDate = s'.referenceDate) :
    fileName s = fileName s' ↔
      (s.account.name.toList.map fun c => if c = '.' then '_' else c) =
        s'.account.name.toList.map fun c => if c = '.' then '_' else c := by
  have htitle (s : Statement) : (title s).toList =
      ("Statement " ++ s.referenceDate.toString ++ " ").toList ++ s.account.name.toList := by
    rw [← String.toList_append]
    rfl
  unfold fileName
  rw [← String.toList_inj, String.toList_append, String.toList_append, List.append_cancel_right_eq,
    String.toList_ofList, String.toList_ofList, htitle, htitle, hdate, List.map_append,
    List.map_append, List.append_cancel_left_eq]

/-- The title of a statement begins with a word of its own, and so does the path of its file. -/
theorem isAbsolute_filePath (s : Statement) :
    (Path.ofString (fileName s)).isAbsolute = false := by
  obtain ⟨rest, hrest⟩ : ∃ rest, (fileName s).toList = 'S' :: rest :=
    ⟨_, by simp only [fileName, title, String.toList_append, String.toList_ofList]; rfl⟩
  rw [Path.isAbsolute, Path.ofString, Path.Start.ofString, hrest]
  rfl

/-- With the extension a name is too long to be one of those that have a meaning of their own. -/
theorem append_extension_ne {stem name : String} (h : name.toList.length < 4) :
    stem ++ ".txt" ≠ name := by
  rintro rfl
  rw [String.toList_append, List.length_append] at h
  exact absurd h (Nat.not_lt.mpr (Nat.le_add_left 4 _))

theorem isName_append_extension (stem : String) : Path.isName (stem ++ ".txt") = true := by
  simp only [Path.isName, Bool.and_eq_true, bne_iff_ne]
  exact ⟨append_extension_ne (by decide), append_extension_ne (by decide)⟩

/-- Without a slash in it, the name is the whole path. -/
theorem filePath_eq {s : Statement} (h : '/' ∉ (fileName s).toList) :
    Path.ofString (fileName s) = ⟨.here, [fileName s]⟩ :=
  Path.ofString_of_isName (isName_append_extension _) h

theorem point_notMem_of_mem_pieces {s : Statement} {piece : String}
    (h : piece ∈ Path.pieces (plainTitle s)) : '.' ∉ piece.toList := by
  obtain ⟨text, htext, rfl⟩ := List.mem_map.mp h
  rw [String.toList_ofList]
  exact fun hpoint =>
    point_notMem_plainTitle s ((sublist_of_mem_splitOn htext).1.subset hpoint)

/-- The pieces of the name of a statement's file are those of its title, and the last one has the
extension. -/
theorem exists_pieces_fileName (s : Statement) : ∃ folders stem,
    Path.pieces (plainTitle s) = folders ++ [stem] ∧
      Path.pieces (fileName s) = folders ++ [stem ++ ".txt"] := by
  have hextension : '/' ∉ ".txt".toList := by decide
  obtain ⟨before, last, htitle, hname⟩ := exists_splitOn_append hextension (plainTitle s).toList
  refine ⟨before.map String.ofList, String.ofList last, ?_, ?_⟩
  · rw [Path.pieces, htitle, List.map_append, List.map_singleton]
  · rw [Path.pieces, fileName_eq_append, String.toList_append, hname, List.map_append,
      List.map_singleton, String.ofList_append, String.ofList_toList]

/-- The names along the path are the pieces of the title, but for empty ones, and the last one has
the extension also where it is empty. -/
theorem exists_fileNames_eq (s : Statement) : ∃ folders stem,
    Path.pieces (plainTitle s) = folders ++ [stem] ∧
      fileNames s = folders.filter (· ≠ "") ++ [stem ++ ".txt"] := by
  obtain ⟨folders, stem, htitle, hname⟩ := exists_pieces_fileName s
  refine ⟨folders, stem, htitle, ?_⟩
  have hfolders : folders.filter Path.isName = folders.filter (· ≠ "") := by
    refine List.filter_congr fun folder hfolder => ?_
    have hpoint : folder ≠ "." := by
      rintro rfl
      exact point_notMem_of_mem_pieces (htitle ▸ List.mem_append_left _ hfolder) (by decide)
    rw [Path.isName, bne_iff_ne.mpr hpoint, Bool.and_true, Bool.eq_iff_iff]
    simp
  rw [fileNames, Path.ofString, hname, List.filter_append, hfolders,
    List.filter_cons_of_pos (isName_append_extension stem), List.filter_nil]

/-- No name on the way to a statement's file leads upwards. -/
theorem ne_dots_of_mem_fileNames (s : Statement) : ∀ name ∈ fileNames s, name ≠ ".." := by
  rintro name hname rfl
  obtain ⟨folders, stem, htitle, hnames⟩ := exists_fileNames_eq s
  rw [hnames] at hname
  rcases List.mem_append.mp hname with hname | hname
  · exact point_notMem_of_mem_pieces
      (htitle ▸ List.mem_append_left _ (List.mem_of_mem_filter hname)) (by decide)
  · exact append_extension_ne (by decide) (List.mem_singleton.mp hname).symm

/-- The path of a statement's file in a directory stays in it. -/
theorem leadsDown_fileNames (d : Path) (s : Statement) :
    d.LeadsDown (fileNames s) (d.join (Path.ofString (fileName s))) :=
  (Path.normal_ofString _).leadsDown_join d (isAbsolute_filePath s) (ne_dots_of_mem_fileNames s)

end Report

end HouseLedger
