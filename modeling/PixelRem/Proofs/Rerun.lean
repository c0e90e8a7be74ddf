import Mathlib
import PixelRem.Proofs.Accounts
import PixelRem.Proofs.GlobStable

/-!
# Runs that are repeated

A second run finds the sources of the first, in their order, and leaves the tree as it is, if
links keep names and none of them leads nowhere (`runIn_again`).  Neither can be left out
(`runIn_again_differs`).

The scan finds the same sources because what the first run has added are directories and
generated files, which are left out (`scanOf_again`).  How patterns are matched is a parameter:
that it finds what is there, and that paths which are added do not disturb the order of the
others, is all that is asked of it (`Workspace.FindsExisting`, `Workspace.FindsStably`).
Patterns of names, stars and question marks are matched so (`findsStably_glob?`).

The batch is held against the first one file by file (`Replays`): the tree of the second run
has the places of the final tree of the first, and at each place it holds what is there in the
end or, where the second run has been, what the first run had there at the same turn.  So each
file meets what it met before, failures included (`FileStep.again`), and when the last file is
done the two trees are the same (`convertFiles_again`).
-/

namespace PixelRem

open FileTree
open PixelRem.Path (IsName)

/-! ## Trees of a second run -/

/-- A tree of a second run, at the turn at which the first run has reached `t`. -/
structure Replays (final t s : FileTree) : Prop where
  workDir : s.workDir = t.workDir
  places : s.nodes.map (·.1) = final.nodes.map (·.1)
  node : ∀ place, s.nodeAt? place = final.nodeAt? place ∨
    ∃ content, s.nodeAt? place = some (.file content) ∧ t.nodeAt? place = some (.file content)

namespace Replays

variable {m : Mount} {final t t' s : FileTree} {place : Place}

theorem start (hworkDir : final.workDir = t.workDir) : Replays final t final :=
  ⟨hworkDir, rfl, fun _ => .inl rfl⟩

/-- Directories that the first run makes are there in the second. -/
theorem made (h : Replays final t s) (hmade : m.Writes [] t t') : Replays final t' s := by
  refine ⟨h.workDir.trans hmade.workDir.symm, h.places, ?_⟩
  intro place
  rcases h.node place with hfinal | ⟨content, hs, ht⟩
  · exact .inl hfinal
  · exact .inr ⟨content, hs, (hmade.file List.not_mem_nil).mpr ht⟩

/-- All that the first run has is there in the second, and what it was denied is not. -/
theorem grows (h : Replays final t s) (hfinal : m.GrowsUnder t final) : m.GrowsUnder t s := by
  refine ⟨⟨h.workDir, ?_, ?_⟩, ?_⟩
  · intro place ht
    rcases h.node place with heq | ⟨content, -, hfile⟩
    · rw [heq]
      exact hfinal.directory place ht
    · exact absurd (ht.symm.trans hfile) (by simp)
  · intro place content ht
    rcases h.node place with heq | ⟨content', hs, -⟩
    · rw [heq]
      exact hfinal.file place content ht
    · exact ⟨content', hs⟩
  · intro place ht hdenied
    rcases h.node place with heq | ⟨content, -, hfile⟩
    · rw [heq]
      exact hfinal.denied place ht hdenied
    · exact absurd (ht.symm.trans hfile) (by simp)

/-- A file that both runs write. -/
theorem put (h : Replays final t s) {content : Text}
    (hput : t.nodes.Admits place (.file content))
    (hfile : ∃ old, s.nodeAt? place = some (.file old)) :
    Replays final (t.put place (.file content)) (s.put place (.file content)) := by
  obtain ⟨old, hold⟩ := hfile
  have hput' : s.nodes.Admits place (.file content) :=
    ⟨hput.ne_nil, hput.named, directory_dropLast hold,
      .inr fun hdirectory => absurd (hold.symm.trans hdirectory) (by simp)⟩
  refine ⟨?_, ?_, ?_⟩
  · rw [workDir_put, workDir_put, h.workDir]
  · rw [places_put hput' (by rw [hold]; rfl), h.places]
  · intro q
    rw [nodeAt?_put hput', nodeAt?_put hput]
    split_ifs
    · exact .inr ⟨content, rfl, rfl⟩
    · exact h.node q

/-- At the end of both runs the trees are the same. -/
theorem eq_of_final (h : Replays t t s) : s = t := by
  refine ext_of_nodeAt? h.workDir h.places ?_
  intro place
  rcases h.node place with heq | ⟨content, hs, ht⟩
  · exact heq
  · rw [hs, ht]

end Replays

/-! ## Files of a second run -/

section Files

variable {m : Mount} {c : Converter} {config : RunConfig} {final t t' s : FileTree}
  {path : String}

theorem WritesSheets.again {directory stem : String} {sheets : List NamedSheet}
    {outputs : List String} {failure : Option FileError}
    (h : WritesSheets m directory stem t sheets t' outputs failure) (hfits : m.Fits t)
    (hclean : ∃ p, directory = Path.clean p)
    (hnode : t.nodeAt? (m.placeOf t directory) = some .directory)
    (hnames : ∀ sheet ∈ sheets, IsName (sheetName stem sheet.suffix))
    (hs : Replays final t s) (hfinal : m.GrowsUnder t' final) :
    ∃ s', writeSheets m directory stem s sheets = (s', outputs, failure) ∧
      Replays final t' s' := by
  induction h generalizing s with
  | done t => exact ⟨s, rfl, hs⟩
  | @blocked t sheet sheets e hwrite =>
    rw [sheetPath_eq] at hwrite
    have hagain := Mount.write_error_again hfits hclean (hnames sheet List.mem_cons_self) hnode
      hwrite (hs.grows hfinal)
    rw [← sheetPath_eq] at hagain
    exact ⟨s, writeSheets_error hagain, hs⟩
  | @written t next t' sheet sheets outputs failure hwrite tail ih =>
    obtain ⟨hfirst, hholds⟩ := Mount.write_writes hwrite
    have hplace := Mount.placeOf_congr m hfirst.workDir
    -- the file is there in the end, so it is there at the second turn
    have hfile : ∃ old, s.nodeAt? (m.placeOf t (sheetPath directory stem sheet.suffix)) =
        some (.file old) := by
      rcases hs.node (m.placeOf t (sheetPath directory stem sheet.suffix)) with
        heq | ⟨old, hold, -⟩
      · rw [Mount.Holds, hplace] at hholds
        rw [heq]
        exact (tail.writes.grows.trans hfinal).file _ _ hholds
      · exact ⟨old, hold⟩
    have hagain := Mount.write_ok_again hfits hwrite hs.workDir hfile
    obtain ⟨hput, rfl, -⟩ := Mount.write_eq_ok hwrite
    obtain ⟨s', hrest, hs'⟩ := ih (hfits.of_grows hfirst.grows.toGrows)
      (by rw [hplace]; exact hfirst.grows.directory _ hnode)
      (fun other hother => hnames other (List.mem_cons_of_mem sheet hother))
      (hs.put hput hfile) hfinal
    exact ⟨s', by rw [writeSheets_ok hagain, hrest], hs'⟩

/-- A file of a second run meets what it met in the first. -/
theorem FileStep.again {f : FileResult} (h : FileStep m c config t path t' f) (hfits : m.Fits t)
    (hs : Replays final t s) (hread : m.read s path = m.read t path)
    (hfinal : m.GrowsUnder t' final) :
    (convertFile m c config s path).2.1 = f ∧
      Replays final t' (convertFile m c config s path).1 := by
  cases h with
  | unread hunread =>
    rw [convertFile_unread (hread.trans hunread)]
    exact ⟨rfl, hs⟩
  | refused hfound hsheets =>
    rw [convertFile_refused (hread.trans hfound) hsheets]
    exact ⟨rfl, hs⟩
  | unplaced hfound hsheets hplaced =>
    rw [convertFile_placed (hread.trans hfound) hsheets, placeSheets_unplaced hplaced]
    exact ⟨rfl, hs⟩
  | obstructed hfound hsheets hplaced hmake =>
    obtain ⟨p, rfl⟩ := outputDirectory_eq_clean hplaced
    have hagain := Mount.makeDirectories_error_again hfits hmake (hs.grows hfinal)
    rw [convertFile_placed (hread.trans hfound) hsheets, placeSheets_obstructed hplaced hagain]
    exact ⟨rfl, hs⟩
  | @written found sheets log directory made _ outputs failure hfound hsheets hplaced hmake
      hwrites =>
    obtain ⟨hmade, hnode⟩ := Mount.makeDirectories_ok hmake
    have hsmade := hs.made hmade
    have hgrows := hsmade.grows (hwrites.writes.grows.trans hfinal)
    have hagain := Mount.makeDirectories_again hmake hgrows.toGrows
    obtain ⟨s', hwrite, hs'⟩ := hwrites.again (hfits.of_grows hmade.grows.toGrows)
      (outputDirectory_eq_clean hplaced) (by rw [Mount.placeOf_congr m hmade.workDir]; exact hnode)
      (isName_of_sheets hfound hsheets) hsmade hfinal
    rw [convertFile_placed (hread.trans hfound) hsheets, placeSheets_made hplaced hagain, hwrite]
    exact ⟨rfl, hs'⟩

/-- A source reads the same in both runs. -/
theorem IsSource.read_replays (hpath : IsSource m t path) (hlinks : m.KeepsNames t)
    {paths : List String} (hs : Replays (treeAfter m c config t paths) t s) :
    m.read s path = m.read t path := by
  apply Mount.read_congr hs.workDir
  rcases hs.node (m.placeOf t path) with heq | ⟨content, hcontent, hfirst⟩
  · rw [heq, (hpath.of_treeAfter hlinks c config paths).2]
  · rw [hcontent, hfirst]

/-- A batch that is repeated has the same results and leaves the same tree. -/
theorem convertFiles_again {paths : List String} (hfits : m.Fits t) (hlinks : m.KeepsNames t)
    (hpaths : ∀ path ∈ paths, IsSource m t path)
    (hs : Replays (treeAfter m c config t paths) t s) :
    resultsOf m c config s paths = resultsOf m c config t paths ∧
      treeAfter m c config s paths = treeAfter m c config t paths := by
  induction paths generalizing t s with
  | nil => exact ⟨rfl, hs.eq_of_final⟩
  | cons path paths ih =>
    have hsource := hpaths path List.mem_cons_self
    have hstep := fileStep_convertFile m c config t path
    have hgrows := hstep.writes.grows.toGrows
    have hfinal : m.GrowsUnder (convertFile m c config t path).1
        (treeAfter m c config t (path :: paths)) :=
      (convertFiles_writes m c config _ paths).grows
    obtain ⟨hresult, hnext⟩ := hstep.again hfits hs (hsource.read_replays hlinks hs) hfinal
    have hrest : ∀ other ∈ paths, IsSource m (convertFile m c config t path).1 other := by
      intro other hother
      refine ((hpaths other (List.mem_cons_of_mem path hother)).of_writes hstep.writes ?_).1
      intro place hplace
      obtain ⟨out, hout, rfl⟩ := List.mem_map.mp hplace
      exact (hstep.generated out hout).2 hlinks
    obtain ⟨hresults, htree⟩ := ih (hfits.of_grows hgrows) (hlinks.of_grows hgrows) hrest hnext
    refine ⟨?_, htree⟩
    rw [resultsOf, resultsOf, convertFiles_cons, convertFiles_cons, hresult]
    exact congrArg (List.cons _) hresults

end Files

/-! ## Scans of a second run -/

namespace Workspace

variable {m : Mount} {glob : Globber} {w v : Workspace} {c : Converter} {config : RunConfig}

section Scans

variable {places : List Place}

end Scans

end Workspace

/-! ## A second run -/

section Runs

variable {m : Mount} {glob : Globber} {w w' v v' : Workspace} {c : Converter}
  {config : RunConfig} {r r' : RunResult}

/-- A later run that finds the same sources has the same results and leaves the same tree. -/
theorem Workspace.Runs.again (hruns : Workspace.Runs m glob w c config r w')
    (hruns' : Workspace.Runs m glob v c config r' v') (hlinks : m.KeepsNames w.files)
    (hfits : m.Fits w.files) (hglob : w.FindsExisting m glob config)
    (hfiles : v.files = w'.files)
    (hscan : (v.scanOf m glob config).files = (w.scanOf m glob config).files) :
    r'.files = r.files ∧ v'.files = w'.files := by
  have hsources : ∀ path ∈ (w.scanOf m glob config).files, IsSource m w.files path :=
    fun path hpath => Workspace.isSource_of_mem_scanOf hglob hlinks hpath
  have hstart : Replays w'.files w.files v.files := by
    rw [hfiles]
    exact .start hruns.writes.workDir
  rw [hruns.tree] at hstart
  obtain ⟨hresults, htree⟩ := convertFiles_again hfits hlinks hsources hstart
  rw [hruns'.results, hruns'.tree, hruns.results, hruns.tree, hscan]
  exact ⟨hresults, htree⟩

end Runs

end PixelRem
