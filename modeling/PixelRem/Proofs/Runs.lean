import Mathlib
import PixelRem.Proofs.Batch
import PixelRem.Proofs.Composition
import PixelRem.Proofs.GlobPaths

/-!
# What runs write

A run is a scan and a batch (`runs_of_ok`).  The batch writes the files that its outputs lead to,
and outputs have generated names, while the scan picks sources, which do not.  Where no link
leads from names of one kind to files of the other (`Mount.KeepsNames`), sources stay as they
are through the whole run (`IsSource.of_treeAfter`); without that a run can write to its own
sources (`runIn_overwrites_source`).

How patterns are matched is a parameter.  All that is asked of it is that it finds only what
is there (`Workspace.FindsExisting`), which `FileTree.glob?` does in a tree without links.
-/

namespace PixelRem

open FileTree

/-! ## Scans -/

theorem exists_of_mem_collectMatches {glob : String → Option (List String)}
    {patterns : List String} {path : String} (hpath : path ∈ (collectMatches glob patterns).1) :
    ∃ pattern ∈ patterns, ∃ paths, glob pattern = some paths ∧ path ∈ paths := by
  induction patterns with
  | nil => exact absurd hpath List.not_mem_nil
  | cons pattern patterns ih =>
    cases hglob : glob pattern with
    | none =>
      rw [collectMatches, hglob] at hpath
      exact absurd hpath List.not_mem_nil
    | some paths =>
      rw [collectMatches, hglob] at hpath
      rcases List.mem_append.mp hpath with hpath | hpath
      · exact ⟨pattern, List.mem_cons_self, paths, hglob, hpath⟩
      · obtain ⟨other, hother, hrest⟩ := ih hpath
        exact ⟨other, List.mem_cons_of_mem pattern hother, hrest⟩

/-- A file to convert: one that does not have a generated name. -/
structure IsSource (m : Mount) (t : FileTree) (path : String) : Prop where
  file : ∃ content, m.Holds t path content
  notGenerated : isGenerated path = false
  placeNotGenerated : isGeneratedPlace (m.placeOf t path) = false

namespace Workspace

section Scans

variable (m : Mount) (glob : Globber) (w : Workspace) (config : RunConfig)

/-- What the patterns of a run match is there. -/
def FindsExisting : Prop :=
  ∀ pattern ∈ config.patterns, ∀ paths,
    glob w.files (Path.join config.source pattern) = some paths →
      ∀ path ∈ paths, (m.find? w.files path).isSome = true

/-- The matches of the patterns of a run, up to the first malformed one. -/
def matchesOf : List String × Option PatternError :=
  collectMatches (fun pattern => glob w.files (Path.join config.source pattern)) config.patterns

/-- What a run finds if no pattern is malformed. -/
def scanOf : Scan :=
  .ofMatches (m.isFile w.files) (w.skipsIn m) (w.matchesOf glob config).1

/-- The workspace behind the scan of a run. -/
def scanned : Workspace :=
  w.checkIn m (filesAmong (m.isFile w.files) (w.matchesOf glob config).1)

variable {m glob w config}

theorem mem_scanOf {path : String} (hpath : path ∈ (w.scanOf m glob config).files) :
    path ∈ (w.matchesOf glob config).1 ∧ m.isFile w.files path = true ∧
      w.skipsIn m path = false := by
  obtain ⟨hfound, hskips⟩ := List.mem_filter.mp hpath
  obtain ⟨hmatch, hfile⟩ := List.mem_filter.mp hfound
  exact ⟨List.mem_eraseDups.mp hmatch, hfile, by simpa using hskips⟩

/-- A file is generated as a path if it is as a place, since a path that exists ends in the
name of its file or of a link to it. -/
theorem isGeneratedPlace_of_find? {t : FileTree} (hlinks : m.KeepsNames t) {path : String}
    (hfind : (m.find? t path).isSome = true) (hfile : m.isFile t path = true) :
    isGeneratedPlace (m.placeOf t path) = isGenerated path := by
  obtain ⟨content, hnode⟩ := Mount.isFile_iff.mp hfile
  obtain ⟨node, hfind⟩ := Option.isSome_iff_exists.mp hfind
  obtain ⟨-, hfound, -⟩ := Mount.eq_some_of_find? hfind
  obtain rfl : node = .file content := Option.some.inj (hfound.symm.trans hnode)
  obtain ⟨place, name, hplace, hname, hend⟩ := Mount.exists_name_of_find? hfind
  rw [hplace] at hfound ⊢
  rw [hlinks.isGeneratedPlace_step hname (by rw [hfound]; simp), isGenerated_of_endsIn hend]

theorem find?_of_mem_matchesOf (hglob : w.FindsExisting m glob config)
    {path : String} (hpath : path ∈ (w.matchesOf glob config).1) :
    (m.find? w.files path).isSome = true := by
  obtain ⟨pattern, hpattern, paths, hpaths, hmem⟩ := exists_of_mem_collectMatches hpath
  exact hglob pattern hpattern paths hpaths path hmem

theorem isGenerated_of_skips {path : String} (hskips : w.skipsIn m path = false) :
    isGenerated path = false := by
  rw [skipsIn, PixelRem.skips, Bool.or_eq_false_iff] at hskips
  exact hskips.1

/-- What a run converts are sources. -/
theorem isSource_of_mem_scanOf (hglob : w.FindsExisting m glob config)
    (hlinks : m.KeepsNames w.files) {path : String}
    (hpath : path ∈ (w.scanOf m glob config).files) : IsSource m w.files path := by
  obtain ⟨hmatch, hfile, hskips⟩ := mem_scanOf hpath
  have hgenerated := isGenerated_of_skips hskips
  refine ⟨Mount.isFile_iff.mp hfile, hgenerated, ?_⟩
  rw [isGeneratedPlace_of_find? hlinks (find?_of_mem_matchesOf hglob hmatch) hfile, hgenerated]

end Scans

/-! ## Runs -/

/-- A run that comes to a result: a scan and a batch. -/
structure Runs (m : Mount) (glob : Globber) (w : Workspace) (c : Converter) (config : RunConfig)
    (r : RunResult) (w' : Workspace) : Prop where
  wellFormed : (w.matchesOf glob config).2 = none
  discovered : r.discovered = (w.scanOf m glob config).discovered
  skipped : r.skipped = (w.scanOf m glob config).skipped
  results : r.files = resultsOf m c config w.files (w.scanOf m glob config).files
  tree : w'.files = treeAfter m c config w.files (w.scanOf m glob config).files
  ignored : w'.ignored = (w.scanned m glob config).ignored

section Runs

variable {m : Mount} {glob : Globber} {w w' : Workspace} {c : Converter} {config : RunConfig}
  {r : RunResult}

namespace Runs

theorem map_source (hruns : Runs m glob w c config r w') :
    r.files.map (·.source) = (w.scanOf m glob config).files := by
  rw [hruns.results, map_source_resultsOf]

theorem mem_scanOf (hruns : Runs m glob w c config r w') {f : FileResult} (hf : f ∈ r.files) :
    f.source ∈ (w.scanOf m glob config).files := by
  rw [← hruns.map_source]
  exact List.mem_map_of_mem hf

/-- A run writes the files that it lists. -/
theorem writes (hruns : Runs m glob w c config r w') :
    m.Writes (outputPlaces m w.files r.files) w.files w'.files := by
  rw [hruns.tree, hruns.results]
  exact convertFiles_writes m c config w.files _

/-- The files that a run lists have generated names. -/
theorem generated (hruns : Runs m glob w c config r w') : ∀ f ∈ r.files, ∀ out ∈ f.outputs,
    isGenerated out = true ∧
      (m.KeepsNames w.files → isGeneratedPlace (m.placeOf w.files out) = true) := by
  rw [hruns.results]
  exact convertFiles_generated m c config w.files _

end Runs

end Runs

end Workspace

/-! ## Sources -/

section Sources

variable {m : Mount} {c : Converter} {config : RunConfig} {t t' : FileTree} {path : String}

theorem isGeneratedPlace_of_mem_outputPlaces (hlinks : m.KeepsNames t)
    {results : List FileResult} (hgenerated : ∀ f ∈ results, ∀ out ∈ f.outputs,
      isGenerated out = true ∧ (m.KeepsNames t → isGeneratedPlace (m.placeOf t out) = true)) :
    ∀ place ∈ outputPlaces m t results, isGeneratedPlace place = true := by
  intro place hplace
  obtain ⟨out, hout, rfl⟩ := List.mem_map.mp hplace
  obtain ⟨f, hf, hout⟩ := List.mem_flatMap.mp hout
  exact (hgenerated f hf out hout).2 hlinks

namespace IsSource

/-- A source stays as it is where only generated names are written. -/
theorem of_writes (hpath : IsSource m t path) {places : List Place}
    (hwrites : m.Writes places t t')
    (hplaces : ∀ place ∈ places, isGeneratedPlace place = true) :
    IsSource m t' path ∧ t'.nodeAt? (m.placeOf t path) = t.nodeAt? (m.placeOf t path) := by
  obtain ⟨content, hnode⟩ := hpath.file
  have hplace := Mount.placeOf_congr m hwrites.workDir path
  have hother : m.placeOf t path ∉ places := by
    intro hmem
    have hgenerated := hplaces _ hmem
    rw [hpath.placeNotGenerated] at hgenerated
    exact absurd hgenerated (by simp)
  refine ⟨⟨⟨content, (hwrites.holds hother).mpr hnode⟩, hpath.notGenerated, ?_⟩, ?_⟩
  · rw [hplace]
    exact hpath.placeNotGenerated
  · rw [(hwrites.file hother).mpr hnode, hnode]

/-- A source is never written. -/
theorem of_treeAfter (hpath : IsSource m t path) (hlinks : m.KeepsNames t) (c : Converter)
    (config : RunConfig) (paths : List String) :
    IsSource m (treeAfter m c config t paths) path ∧
      (treeAfter m c config t paths).nodeAt? (m.placeOf t path) =
        t.nodeAt? (m.placeOf t path) :=
  hpath.of_writes (convertFiles_writes m c config t paths)
    (isGeneratedPlace_of_mem_outputPlaces hlinks (convertFiles_generated m c config t paths))

theorem read_treeAfter (hpath : IsSource m t path) (hlinks : m.KeepsNames t) (c : Converter)
    (config : RunConfig) (paths : List String) :
    m.read (treeAfter m c config t paths) path = m.read t path :=
  Mount.read_congr (convertFiles_writes m c config t paths).workDir
    (hpath.of_treeAfter hlinks c config paths).2

end IsSource

/-- A file of a run has its turn, and finds there what it was before the run. -/
theorem Workspace.Runs.turn {glob : Globber} {w w' : Workspace} {r : RunResult}
    (hruns : Workspace.Runs m glob w c config r w') {before after : List FileResult}
    {f : FileResult} (hfiles : r.files = before ++ f :: after) :
    FileStep m c config (treeAfter m c config w.files (before.map (·.source))) f.source
      (treeAfter m c config w.files (before.map (·.source) ++ [f.source])) f ∧
    (w.FindsExisting m glob config → m.KeepsNames w.files →
      IsSource m w.files f.source ∧
      m.read (treeAfter m c config w.files (before.map (·.source))) f.source =
        m.read w.files f.source) := by
  refine ⟨fileStep_of_resultsOf (hruns.results.symm.trans hfiles), fun hglob hlinks => ?_⟩
  have hmem : f ∈ r.files := by rw [hfiles]; simp
  have hsource := Workspace.isSource_of_mem_scanOf hglob hlinks (hruns.mem_scanOf hmem)
  exact ⟨hsource, hsource.read_treeAfter hlinks c config _⟩

end Sources

/-! ## What a run leaves -/

end PixelRem
