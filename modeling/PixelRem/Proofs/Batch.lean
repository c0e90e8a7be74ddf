import Mathlib
import PixelRem.Run.Batch
import PixelRem.Proofs.Mounts
import PixelRem.Proofs.SheetNames

/-!
# Files one after the other

What becomes of a tree when a batch of files is converted.  `WritesSheets` and `FileStep` say
what writing the sheets of a file and converting a file can do, one case for each way it can
end; the functions are instances of them (`writesSheets_writeSheets`, `fileStep_convertFile`)
and everything below is read off their cases:

* nothing is written but the outputs (`FileStep.writes`), which have generated names.  Their
  files have generated names too, as long as no link leads from a generated name to another
  (`Mount.KeepsNames`, `FileStep.generated`);
* a file that is converted has all its outputs, and they hold its sheets (`FileStep.complete`);
* a batch keeps what each of its files keeps (`convertFiles_writes`, `convertFiles_generated`).
-/

namespace PixelRem

open FileTree
open PixelRem.Path (IsName)

/-! ## Writing sheets -/

/-- The content of the file that a sheet is written to. -/
def NamedSheet.content (sheet : NamedSheet) : Text :=
  sheet.css ++ [ascii '\n']

/-- Sheets are written into a directory, up to the first that cannot be. -/
inductive WritesSheets (m : Mount) (directory stem : String) :
    FileTree → List NamedSheet → FileTree → List String → Option FileError → Prop
  | done (t : FileTree) : WritesSheets m directory stem t [] t [] none
  | blocked {t : FileTree} {sheet : NamedSheet} {sheets : List NamedSheet} {e : AccessError}
      (hwrite : m.write t (sheetPath directory stem sheet.suffix) sheet.content = .error e) :
    WritesSheets m directory stem t (sheet :: sheets) t []
      (some (.write (sheetPath directory stem sheet.suffix) e))
  | written {t next t' : FileTree} {sheet : NamedSheet} {sheets : List NamedSheet}
      {outputs : List String} {failure : Option FileError}
      (hwrite : m.write t (sheetPath directory stem sheet.suffix) sheet.content = .ok next)
      (tail : WritesSheets m directory stem next sheets t' outputs failure) :
    WritesSheets m directory stem t (sheet :: sheets) t'
      (sheetPath directory stem sheet.suffix :: outputs) failure

section Sheets

variable {m : Mount} {directory stem : String} {t t' : FileTree} {sheets : List NamedSheet}
  {outputs : List String} {failure : Option FileError}

theorem writeSheets_error {sheet : NamedSheet} {e : AccessError}
    (hwrite : m.write t (sheetPath directory stem sheet.suffix) sheet.content = .error e) :
    writeSheets m directory stem t (sheet :: sheets) =
      (t, [], some (.write (sheetPath directory stem sheet.suffix) e)) := by
  rw [NamedSheet.content] at hwrite
  rw [writeSheets, hwrite]

theorem writeSheets_ok {next : FileTree} {sheet : NamedSheet}
    (hwrite : m.write t (sheetPath directory stem sheet.suffix) sheet.content = .ok next) :
    writeSheets m directory stem t (sheet :: sheets) =
      ((writeSheets m directory stem next sheets).1,
        sheetPath directory stem sheet.suffix :: (writeSheets m directory stem next sheets).2.1,
        (writeSheets m directory stem next sheets).2.2) := by
  rw [NamedSheet.content] at hwrite
  rw [writeSheets, hwrite]

theorem writesSheets_writeSheets (m : Mount) (directory stem : String) (t : FileTree)
    (sheets : List NamedSheet) :
    WritesSheets m directory stem t sheets (writeSheets m directory stem t sheets).1
      (writeSheets m directory stem t sheets).2.1
      (writeSheets m directory stem t sheets).2.2 := by
  induction sheets generalizing t with
  | nil => exact .done t
  | cons sheet sheets ih =>
    cases hwrite : m.write t (sheetPath directory stem sheet.suffix) sheet.content with
    | error e =>
      rw [writeSheets_error hwrite]
      exact .blocked hwrite
    | ok next =>
      rw [writeSheets_ok hwrite]
      exact .written hwrite (ih next)

namespace WritesSheets

theorem outputs_initial (h : WritesSheets m directory stem t sheets t' outputs failure) :
    outputs <+: sheets.map fun sheet => sheetPath directory stem sheet.suffix := by
  induction h with
  | done => exact List.prefix_rfl
  | blocked => exact ⟨_, List.nil_append _⟩
  | written hwrite tail ih =>
    rw [List.map_cons]
    exact List.cons_prefix_cons.mpr ⟨rfl, ih⟩

/-- Every sheet is written unless one fails. -/
theorem outputs_eq (h : WritesSheets m directory stem t sheets t' outputs none) :
    outputs = sheets.map fun sheet => sheetPath directory stem sheet.suffix := by
  generalize hfailure : (none : Option FileError) = failure at h
  induction h with
  | done => rfl
  | blocked => exact absurd hfailure (by simp)
  | written hwrite tail ih => rw [List.map_cons, ih hfailure]

theorem writes (h : WritesSheets m directory stem t sheets t' outputs failure) :
    m.Writes (outputs.map (m.placeOf t)) t t' := by
  induction h with
  | done t => exact .refl m t
  | @blocked t => exact .refl m t
  | @written t next t' sheet sheets outputs failure hwrite tail ih =>
    have hfirst := (Mount.write_writes hwrite).1
    have hplaces : outputs.map (m.placeOf next) = outputs.map (m.placeOf t) :=
      List.map_congr_left fun path _ => Mount.placeOf_congr m hfirst.workDir path
    rw [hplaces] at ih
    exact hfirst.trans ih

/-- An output holds the last sheet that is written to its place. -/
theorem content (h : WritesSheets m directory stem t sheets t' outputs none)
    {before after : List NamedSheet} {sheet : NamedSheet}
    (hsheets : sheets = before ++ sheet :: after)
    (hlast : ∀ later ∈ after, m.placeOf t (sheetPath directory stem later.suffix) ≠
      m.placeOf t (sheetPath directory stem sheet.suffix)) :
    m.Holds t' (sheetPath directory stem sheet.suffix) sheet.content := by
  generalize hfailure : (none : Option FileError) = failure at h
  induction h generalizing before with
  | done => exact absurd hsheets (by simp)
  | blocked => exact absurd hfailure (by simp)
  | @written t next t' first sheets outputs failure hwrite tail ih =>
    obtain ⟨hfirst, hholds⟩ := Mount.write_writes hwrite
    have hplace := Mount.placeOf_congr m hfirst.workDir
    cases before with
    | nil =>
      obtain ⟨rfl, rfl⟩ := List.cons.inj hsheets
      rw [tail.writes.holds]
      · exact hholds
      · -- the later sheets go to other places
        intro hmem
        obtain ⟨out, hout, heq⟩ := List.mem_map.mp hmem
        obtain ⟨later, hlater, rfl⟩ := List.mem_map.mp (tail.outputs_initial.subset hout)
        rw [hplace, hplace] at heq
        exact hlast later hlater heq
    | cons other before =>
      refine ih (List.cons.inj hsheets).2 ?_ hfailure
      intro later hlater
      rw [hplace, hplace]
      exact hlast later hlater

end WritesSheets

end Sheets

/-! ## Generated names -/

/-- A place is generated if its last name is. -/
def isGeneratedPlace (place : Place) : Bool :=
  place.getLast?.any isGenerated

@[simp] theorem isGeneratedPlace_concat (place : Place) (name : String) :
    isGeneratedPlace (place ++ [name]) = isGenerated name := by
  rw [isGeneratedPlace, List.getLast?_concat, Option.any_some]

/-- Links to files lead from generated names to generated names and from others to others. -/
def Mount.KeepsNames (m : Mount) (t : FileTree) : Prop :=
  ∀ link ∈ m.links, t.nodeAt? link.2 = some .directory ∨
    isGeneratedPlace link.1 = isGeneratedPlace link.2

theorem Mount.KeepsNames.of_grows {m : Mount} {t t' : FileTree} (hlinks : m.KeepsNames t)
    (hgrows : Grows t t') : m.KeepsNames t' :=
  fun link hlink => (hlinks link hlink).imp_left (hgrows.directory link.2)

/-- What is no directory has a generated place if the name that leads to it is generated. -/
theorem Mount.KeepsNames.isGeneratedPlace_step {m : Mount} {t : FileTree} {place : Place}
    {name : String} (hlinks : m.KeepsNames t) (hname : IsName name)
    (hnode : t.nodeAt? (m.step place name) ≠ some .directory) :
    isGeneratedPlace (m.step place name) = isGenerated name := by
  rw [Mount.step_name m place hname] at hnode ⊢
  cases hlink : m.linkAt? (place ++ [name]) with
  | none => exact isGeneratedPlace_concat place name
  | some target =>
    rw [hlink] at hnode
    rcases hlinks _ (Mount.mem_links_of_linkAt? hlink) with hdirectory | hsame
    · exact absurd hdirectory hnode
    · exact hsame.symm.trans (isGeneratedPlace_concat place name)

/-! ## Converting a file -/

/-- What converting a file can do: nothing, for one of four reasons, or make the directory of
its sheets and write them. -/
inductive FileStep (m : Mount) (c : Converter) (config : RunConfig) (t : FileTree)
    (path : String) : FileTree → FileResult → Prop
  | unread {e : AccessError} (hread : m.read t path = .error e) :
    FileStep m c config t path t ⟨path, [], some (.read path e)⟩
  | refused {content : Text} {e : GenerateError} (hread : m.read t path = .ok content)
      (hsheets : c.sheets config.mode config.dpr content = .error e) :
    FileStep m c config t path t ⟨path, [], some (.generate e)⟩
  | unplaced {content : Text} {sheets : List NamedSheet} {log : List LogEntry} {e : PlaceError}
      (hread : m.read t path = .ok content)
      (hsheets : c.sheets config.mode config.dpr content = .ok (sheets, log))
      (hplaced : outputDirectory path config.source config.outputDir = .error e) :
    FileStep m c config t path t ⟨path, [], some (.place e)⟩
  | obstructed {content : Text} {sheets : List NamedSheet} {log : List LogEntry}
      {directory obstacle : String} {e : AccessError} (hread : m.read t path = .ok content)
      (hsheets : c.sheets config.mode config.dpr content = .ok (sheets, log))
      (hplaced : outputDirectory path config.source config.outputDir = .ok directory)
      (hmake : m.makeDirectories t directory = .error (obstacle, e)) :
    FileStep m c config t path t ⟨path, [], some (.directory obstacle e)⟩
  | written {content : Text} {sheets : List NamedSheet} {log : List LogEntry}
      {directory : String} {made t' : FileTree} {outputs : List String}
      {failure : Option FileError} (hread : m.read t path = .ok content)
      (hsheets : c.sheets config.mode config.dpr content = .ok (sheets, log))
      (hplaced : outputDirectory path config.source config.outputDir = .ok directory)
      (hmake : m.makeDirectories t directory = .ok made)
      (hwrites : WritesSheets m directory (Path.stem path) made sheets t' outputs failure) :
    FileStep m c config t path t' ⟨path, outputs, failure⟩

section Step

variable {m : Mount} {c : Converter} {config : RunConfig} {t t' : FileTree} {path : String}
  {r : FileResult}

theorem outputDirectory_eq_clean {source outputDir directory : String}
    (hplaced : outputDirectory path source outputDir = .ok directory) :
    ∃ p, directory = Path.clean p := by
  rw [outputDirectory] at hplaced
  split_ifs at hplaced with hempty
  · exact ⟨_, (Except.ok.inj hplaced).symm⟩
  · split at hplaced
    · have hne : outputDir ≠ "" := fun h => hempty (by rw [h]; rfl)
      rw [Path.join_of_ne_empty hne] at hplaced
      exact ⟨_, (Except.ok.inj hplaced).symm⟩
    · exact absurd hplaced (by simp)

/-- A path that can be read has a name. -/
theorem slash_not_mem_stem_of_read {content : Text} (hread : m.read t path = .ok content) :
    '/' ∉ (Path.stem path).toList := by
  apply slash_not_mem_stem
  by_contra hnone
  obtain ⟨hnames, hpath⟩ := not_or.mp hnone
  rw [not_not] at hnames
  have hroot : m.placeOf t path = [] := by
    rw [Mount.placeOf, hnames, Path.isRooted_of_names_eq_nil hpath hnames]
    rfl
  rw [Mount.read_eq_ok_iff, Mount.Holds, hroot, nodeAt?_nil] at hread
  exact absurd hread.1 (by simp)

section Named

variable {content : Text} {sheets : List NamedSheet} {log : List LogEntry}

theorem isSuffix_of_sheets (hsheets : c.sheets config.mode config.dpr content = .ok (sheets, log)) :
    ∀ sheet ∈ sheets, IsSuffix sheet.suffix := by
  intro sheet hsheet
  obtain ⟨hmap, hsuffix⟩ := suffixes_of_sheets hsheets
  exact hsuffix _ (hmap ▸ List.mem_map_of_mem hsheet)

theorem isName_of_sheets (hread : m.read t path = .ok content)
    (hsheets : c.sheets config.mode config.dpr content = .ok (sheets, log)) :
    ∀ sheet ∈ sheets, IsName (sheetName (Path.stem path) sheet.suffix) := fun sheet hsheet =>
  isName_sheetName (slash_not_mem_stem_of_read hread) (isSuffix_of_sheets hsheets sheet hsheet)

end Named

section Equations

variable {content : Text} {sheets : List NamedSheet} {log : List LogEntry} {directory : String}

theorem convertFile_unread {e : AccessError} (hread : m.read t path = .error e) :
    convertFile m c config t path = (t, ⟨path, [], some (.read path e)⟩, []) := by
  rw [convertFile, hread]

theorem convertFile_refused {e : GenerateError} (hread : m.read t path = .ok content)
    (hsheets : c.sheets config.mode config.dpr content = .error e) :
    convertFile m c config t path = (t, ⟨path, [], some (.generate e)⟩, []) := by
  rw [convertFile, hread]
  simp only [hsheets]

theorem convertFile_placed (hread : m.read t path = .ok content)
    (hsheets : c.sheets config.mode config.dpr content = .ok (sheets, log)) :
    convertFile m c config t path =
      ((placeSheets m config t path sheets).1,
        ⟨path, (placeSheets m config t path sheets).2.1,
          (placeSheets m config t path sheets).2.2⟩,
        log) := by
  rw [convertFile, hread]
  simp only [hsheets]

theorem placeSheets_unplaced {e : PlaceError}
    (hplaced : outputDirectory path config.source config.outputDir = .error e) :
    placeSheets m config t path sheets = (t, [], some (.place e)) := by
  rw [placeSheets, hplaced]

theorem placeSheets_obstructed {obstacle : String} {e : AccessError}
    (hplaced : outputDirectory path config.source config.outputDir = .ok directory)
    (hmake : m.makeDirectories t directory = .error (obstacle, e)) :
    placeSheets m config t path sheets = (t, [], some (.directory obstacle e)) := by
  rw [placeSheets, hplaced]
  simp only [hmake]

theorem placeSheets_made {made : FileTree}
    (hplaced : outputDirectory path config.source config.outputDir = .ok directory)
    (hmake : m.makeDirectories t directory = .ok made) :
    placeSheets m config t path sheets = writeSheets m directory (Path.stem path) made sheets := by
  rw [placeSheets, hplaced]
  simp only [hmake]

end Equations

theorem fileStep_convertFile (m : Mount) (c : Converter) (config : RunConfig) (t : FileTree)
    (path : String) :
    FileStep m c config t path (convertFile m c config t path).1
      (convertFile m c config t path).2.1 := by
  cases hread : m.read t path with
  | error e =>
    rw [convertFile_unread hread]
    exact .unread hread
  | ok content =>
    cases hsheets : c.sheets config.mode config.dpr content with
    | error e =>
      rw [convertFile_refused hread hsheets]
      exact .refused hread hsheets
    | ok named =>
      rw [convertFile_placed hread hsheets]
      cases hplaced : outputDirectory path config.source config.outputDir with
      | error e =>
        rw [placeSheets_unplaced hplaced]
        exact .unplaced hread hsheets hplaced
      | ok directory =>
        cases hmake : m.makeDirectories t directory with
        | error obstacle =>
          rw [placeSheets_obstructed hplaced hmake]
          exact .obstructed hread hsheets hplaced hmake
        | ok made =>
          rw [placeSheets_made hplaced hmake]
          exact .written hread hsheets hplaced hmake
            (writesSheets_writeSheets m directory (Path.stem path) made named.1)

namespace FileStep

theorem source (h : FileStep m c config t path t' r) : r.source = path := by
  cases h <;> rfl

/-- Files are written at the outputs only. -/
theorem writes (h : FileStep m c config t path t' r) :
    m.Writes (r.outputs.map (m.placeOf t)) t t' := by
  cases h with
  | unread => exact .refl m t
  | refused => exact .refl m t
  | unplaced => exact .refl m t
  | obstructed => exact .refl m t
  | @written _ _ _ directory made _ outputs _ hread hsheets hplaced hmake hwrites =>
    have hmade := (Mount.makeDirectories_ok hmake).1
    have hplaces : outputs.map (m.placeOf made) = outputs.map (m.placeOf t) :=
      List.map_congr_left fun out _ => Mount.placeOf_congr m hmade.workDir out
    have hsheetsWritten := hwrites.writes
    rw [hplaces] at hsheetsWritten
    exact hmade.trans hsheetsWritten

/-- An output is a path in the directory of the outputs, and ends in a generated name. -/
theorem exists_name_of_output (h : FileStep m c config t path t' r) {out : String}
    (hout : out ∈ r.outputs) :
    ∃ directory name, (∃ p, directory = Path.clean p) ∧ IsName name ∧
      out = Path.join directory name ∧ isGenerated name = true := by
  cases h with
  | unread => exact absurd hout List.not_mem_nil
  | refused => exact absurd hout List.not_mem_nil
  | unplaced => exact absurd hout List.not_mem_nil
  | obstructed => exact absurd hout List.not_mem_nil
  | written hread hsheets hplaced hmake hwrites =>
    obtain ⟨sheet, hsheet, rfl⟩ := List.mem_map.mp (hwrites.outputs_initial.subset hout)
    exact ⟨_, sheetName (Path.stem path) sheet.suffix, outputDirectory_eq_clean hplaced,
      isName_of_sheets hread hsheets sheet hsheet, sheetPath_eq _ _ _,
      isGenerated_sheetName (Path.stem path) (isSuffix_of_sheets hsheets sheet hsheet)⟩

/-- Every output is recognised as generated, as a path and, if links keep names, as a place. -/
theorem generated (h : FileStep m c config t path t' r) :
    ∀ out ∈ r.outputs, isGenerated out = true ∧
      (m.KeepsNames t → isGeneratedPlace (m.placeOf t out) = true) := by
  intro out hout
  obtain ⟨directory, name, hclean, hname, hpath, hgenerated⟩ := h.exists_name_of_output hout
  constructor
  · obtain ⟨p, rfl⟩ := hclean
    rw [hpath, Path.join_name (Path.clean_ne_empty p) hname,
      isGenerated_of_endsIn (Path.endsIn_ofNames _ _ _), hgenerated]
  · intro hlinks
    have hplace : m.placeOf t out = m.step (m.placeOf t directory) name := by
      rw [hpath, Mount.placeOf_join_name m t hclean hname]
    -- a file is written there, so no directory was there
    obtain ⟨content, hfile⟩ := h.writes.written _ (List.mem_map_of_mem hout)
    have hfree : t.nodeAt? (m.placeOf t out) ≠ some .directory := by
      intro hdirectory
      rw [h.writes.grows.directory _ hdirectory] at hfile
      exact absurd hfile (by simp)
    rw [hplace] at hfree ⊢
    rw [hlinks.isGeneratedPlace_step hname hfree, hgenerated]

/-- A file without a failure has all its sheets written.  Where links lead two of them to one
file, it holds the last. -/
theorem complete (h : FileStep m c config t path t' r) (hfailure : r.failure = none) :
    ∃ content sheets log directory, m.read t path = .ok content ∧
      c.sheets config.mode config.dpr content = .ok (sheets, log) ∧
      outputDirectory path config.source config.outputDir = .ok directory ∧
      r.outputs = sheets.map (fun sheet => sheetPath directory (Path.stem path) sheet.suffix) ∧
      ∀ before sheet after, sheets = before ++ sheet :: after →
        (∀ later ∈ after, m.placeOf t (sheetPath directory (Path.stem path) later.suffix) ≠
          m.placeOf t (sheetPath directory (Path.stem path) sheet.suffix)) →
        m.Holds t' (sheetPath directory (Path.stem path) sheet.suffix) sheet.content := by
  cases h with
  | unread => exact absurd hfailure (by simp)
  | refused => exact absurd hfailure (by simp)
  | unplaced => exact absurd hfailure (by simp)
  | obstructed => exact absurd hfailure (by simp)
  | @written content sheets log directory made _ outputs failure hread hsheets hplaced hmake
      hwrites =>
    obtain rfl : failure = none := hfailure
    have hplace := Mount.placeOf_congr m (Mount.makeDirectories_ok hmake).1.workDir
    refine ⟨content, sheets, log, directory, hread, hsheets, hplaced, hwrites.outputs_eq, ?_⟩
    intro before sheet after hsplit hlast
    refine hwrites.content hsplit ?_
    intro later hlater
    rw [hplace, hplace]
    exact hlast later hlater

end FileStep

end Step

/-! ## Converting files -/

section Files

variable (m : Mount) (c : Converter) (config : RunConfig)

theorem convertFiles_cons (t : FileTree) (path : String) (paths : List String) :
    convertFiles m c config t (path :: paths) =
      ((convertFiles m c config (convertFile m c config t path).1 paths).1,
        (convertFile m c config t path).2.1 ::
          (convertFiles m c config (convertFile m c config t path).1 paths).2.1,
        (convertFile m c config t path).2.2 ++ (convertFile m c config t path).2.1.logEntry ::
          (convertFiles m c config (convertFile m c config t path).1 paths).2.2) := rfl

/-- The tree that a batch leaves. -/
def treeAfter (t : FileTree) (paths : List String) : FileTree :=
  (convertFiles m c config t paths).1

/-- The results of a batch. -/
def resultsOf (t : FileTree) (paths : List String) : List FileResult :=
  (convertFiles m c config t paths).2.1

/-- The places of all outputs of results. -/
def outputPlaces (t : FileTree) (results : List FileResult) : List Place :=
  (results.flatMap (·.outputs)).map (m.placeOf t)

variable {m c config} {t : FileTree}

theorem map_source_resultsOf (m : Mount) (c : Converter) (config : RunConfig) (t : FileTree)
    (paths : List String) : (resultsOf m c config t paths).map (·.source) = paths := by
  induction paths generalizing t with
  | nil => rfl
  | cons path paths ih =>
    rw [resultsOf, convertFiles_cons, List.map_cons,
      (fileStep_convertFile m c config t path).source]
    exact congrArg (List.cons path) (ih _)

/-- Each result is that of the file's turn, between the trees that the files before it and
the files up to it leave. -/
theorem fileStep_of_resultsOf {paths : List String} {before after : List FileResult}
    {f : FileResult} (hresults : resultsOf m c config t paths = before ++ f :: after) :
    FileStep m c config (treeAfter m c config t (before.map (·.source))) f.source
      (treeAfter m c config t (before.map (·.source) ++ [f.source])) f := by
  induction before generalizing t paths with
  | nil =>
    cases paths with
    | nil => exact absurd hresults (by simp [resultsOf, convertFiles])
    | cons path paths =>
      have hstep := fileStep_convertFile m c config t path
      rw [resultsOf, convertFiles_cons, List.nil_append, List.cons.injEq] at hresults
      rw [← hresults.1, hstep.source]
      exact hstep
  | cons g before ih =>
    cases paths with
    | nil => exact absurd hresults (by simp [resultsOf, convertFiles])
    | cons path paths =>
      rw [resultsOf, convertFiles_cons, List.cons_append, List.cons.injEq] at hresults
      rw [List.map_cons, ← hresults.1, (fileStep_convertFile m c config t path).source]
      exact ih hresults.2

/-- A batch writes files at its outputs only. -/
theorem convertFiles_writes (m : Mount) (c : Converter) (config : RunConfig) (t : FileTree)
    (paths : List String) :
    m.Writes (outputPlaces m t (resultsOf m c config t paths)) t
      (treeAfter m c config t paths) := by
  induction paths generalizing t with
  | nil => exact .refl m t
  | cons path paths ih =>
    have hwrites := (fileStep_convertFile m c config t path).writes
    have hrest := ih (convertFile m c config t path).1
    rw [outputPlaces, funext (Mount.placeOf_congr m hwrites.workDir)] at hrest
    have hall := hwrites.trans hrest
    rw [← List.map_append] at hall
    exact hall

/-- The outputs of a batch are recognised as generated. -/
theorem convertFiles_generated (m : Mount) (c : Converter) (config : RunConfig) (t : FileTree)
    (paths : List String) : ∀ r ∈ resultsOf m c config t paths, ∀ out ∈ r.outputs,
      isGenerated out = true ∧
        (m.KeepsNames t → isGeneratedPlace (m.placeOf t out) = true) := by
  induction paths generalizing t with
  | nil => exact fun r hr => absurd hr List.not_mem_nil
  | cons path paths ih =>
    have hstep := fileStep_convertFile m c config t path
    intro r hr out hout
    rcases List.mem_cons.mp hr with rfl | hr
    · exact hstep.generated out hout
    · obtain ⟨hgenerated, hplace⟩ := ih (convertFile m c config t path).1 r hr out hout
      refine ⟨hgenerated, fun hlinks => ?_⟩
      rw [← Mount.placeOf_congr m hstep.writes.workDir]
      exact hplace (hlinks.of_grows hstep.writes.grows.toGrows)

end Files

end PixelRem
