import Mathlib
import PixelRem.Run.Scan

/-!
# What scans report

A scan reports every matching file once, whatever the way to match patterns is.

* `Sweep.visit` is one step of a pass over the matches that keeps a list of the paths
  it has come by, and `sweep` is the whole pass.  The scan of matches is what the pass
  reports (`ofMatches_eq_sweep`).
* `Scan.Reports` says what a scan reports of a list of matches: which files, in which
  order, and the counts.  One step keeps it (`Reports.visit`), so the pass has it
  (`reports_sweep`).
* Two lists with the same members have the same counts and the same files up to order
  (`Reports.perm`), so it does not matter how patterns are listed or repeated.
-/

namespace PixelRem

/-! ## One pass over the matches -/

/-- A pass on its way: the paths it has come by and its report on them. -/
structure Sweep where
  seen : List String
  report : Scan

namespace Sweep

/-- A pass that has come by nothing. -/
def start : Sweep :=
  ⟨[], ⟨0, 0, []⟩⟩

/-- Comes by one more path.  It is marked before anything is asked about it, so a
second time it is passed over, file or not. -/
def visit (isFile skip : String → Bool) (s : Sweep) (path : String) : Sweep :=
  if path ∈ s.seen then s
  else
    ⟨path :: s.seen,
      if isFile path = false then s.report
      else if skip path = true then
        { s.report with
          discovered := s.report.discovered + 1
          skipped := s.report.skipped + 1 }
      else
        { s.report with
          discovered := s.report.discovered + 1
          files := s.report.files ++ [path] }⟩

end Sweep

/-- The pass over a list of matches. -/
def sweep (isFile skip : String → Bool) (paths : List String) : Sweep :=
  paths.foldl (Sweep.visit isFile skip) .start

variable {isFile skip : String → Bool} {paths : List String}

theorem sweep_concat (paths : List String) (path : String) :
    sweep isFile skip (paths ++ [path]) = (sweep isFile skip paths).visit isFile skip path :=
  List.foldl_concat ..

theorem mem_seen_visit {s : Sweep} {path other : String} :
    other ∈ (s.visit isFile skip path).seen ↔ other ∈ s.seen ∨ other = path := by
  rw [Sweep.visit]
  by_cases hseen : path ∈ s.seen
  · rw [if_pos hseen]
    exact ⟨.inl, fun h => h.elim id fun heq => heq ▸ hseen⟩
  · rw [if_neg hseen, List.mem_cons, or_comm]

theorem mem_seen_sweep {other : String} :
    other ∈ (sweep isFile skip paths).seen ↔ other ∈ paths := by
  induction paths using List.reverseRecOn with
  | nil => exact Iff.rfl
  | append_singleton paths path ih =>
    rw [sweep_concat, mem_seen_visit, ih, List.mem_append, List.mem_singleton]

theorem eraseDups_concat (paths : List String) (path : String) :
    (paths ++ [path]).eraseDups = paths.eraseDups ++ if path ∈ paths then [] else [path] := by
  rw [List.eraseDups_append]
  by_cases hpath : path ∈ paths <;> simp [List.removeAll, hpath, List.eraseDups_cons]

/-- The scan of matches is the report of one pass over them. -/
theorem ofMatches_eq_sweep (isFile skip : String → Bool) (paths : List String) :
    Scan.ofMatches isFile skip paths = (sweep isFile skip paths).report := by
  induction paths using List.reverseRecOn with
  | nil => rfl
  | append_singleton paths path ih =>
    have hseen : path ∈ (sweep isFile skip paths).seen ↔ path ∈ paths := mem_seen_sweep
    rw [sweep_concat, Sweep.visit, ← ih, Scan.ofMatches, filesAmong, eraseDups_concat]
    by_cases hpath : path ∈ paths
    · rw [if_pos hpath, if_pos (hseen.mpr hpath), List.append_nil, ← ih]
      rfl
    · rw [if_neg hpath, if_neg (mt hseen.mp hpath)]
      cases hfile : isFile path <;> cases hskip : skip path <;>
        simp [Scan.ofMatches, filesAmong, hfile, hskip]

/-! ## What a pass reports -/

/-- What is reported of a list of matches. -/
structure Scan.Reports (isFile skip : String → Bool) (paths : List String) (s : Scan) : Prop where
  /-- No path is reported twice. -/
  nodup : s.files.Nodup
  /-- The files are the matches that are files and not left out. -/
  mem_iff : ∀ path, path ∈ s.files ↔ path ∈ paths ∧ isFile path = true ∧ skip path = false
  /-- They stand in the order of first match. -/
  ordered : s.files.Pairwise fun a b => paths.idxOf a < paths.idxOf b
  /-- Every match that is a file counts once. -/
  discovered_eq : s.discovered = (paths.toFinset.filter fun path => isFile path = true).card
  /-- What is not left out is reported. -/
  balance : s.discovered = s.skipped + s.files.length

theorem card_filter_concat {path : String} (hnew : path ∉ paths) (p : String → Bool) :
    ((paths ++ [path]).toFinset.filter fun other => p other = true).card =
      (paths.toFinset.filter fun other => p other = true).card +
        if p path = true then 1 else 0 := by
  have hinsert : (paths ++ [path]).toFinset = insert path paths.toFinset := by
    ext other
    simp
  rw [hinsert, Finset.filter_insert]
  split_ifs
  · rw [Finset.card_insert_of_notMem (by simp [hnew])]
  · rfl

/-- The place of a first match does not change with matches behind it. -/
theorem pairwise_idxOf_append {files : List String} (hfiles : ∀ path ∈ files, path ∈ paths)
    (others : List String) :
    (files.Pairwise fun a b => (paths ++ others).idxOf a < (paths ++ others).idxOf b) ↔
      files.Pairwise fun a b => paths.idxOf a < paths.idxOf b := by
  apply List.Pairwise.iff_of_mem
  intro a b ha hb
  rw [List.idxOf_append_of_mem (hfiles a ha), List.idxOf_append_of_mem (hfiles b hb)]

namespace Scan.Reports

variable {s : Scan} {path : String}

theorem mem_paths (hs : s.Reports isFile skip paths) : ∀ path ∈ s.files, path ∈ paths :=
  fun path hpath => ((hs.mem_iff path).mp hpath).1

/-- A path that came by before changes nothing. -/
theorem again (hs : s.Reports isFile skip paths) (hpath : path ∈ paths) :
    s.Reports isFile skip (paths ++ [path]) where
  nodup := hs.nodup
  mem_iff other := by
    have hmem : other ∈ paths ++ [path] ↔ other ∈ paths := by
      rw [List.mem_append, List.mem_singleton, or_iff_left_of_imp (fun heq => heq ▸ hpath)]
    rw [hs.mem_iff, hmem]
  ordered := (pairwise_idxOf_append hs.mem_paths [path]).mpr hs.ordered
  discovered_eq := by
    have hsame : (paths ++ [path]).toFinset = paths.toFinset := by
      rw [List.toFinset_append, Finset.union_eq_left]
      simpa using hpath
    rw [hsame, hs.discovered_eq]
  balance := hs.balance

/-- A new path that is not reported as a file to convert. -/
theorem leaveOut (hs : s.Reports isFile skip paths) (hnew : path ∉ paths)
    (hout : isFile path = true → skip path = true) :
    Scan.Reports isFile skip (paths ++ [path])
      { s with
        discovered := s.discovered + if isFile path = true then 1 else 0
        skipped := s.skipped + if isFile path = true then 1 else 0 } where
  nodup := hs.nodup
  mem_iff other := by
    rw [hs.mem_iff, List.mem_append, List.mem_singleton]
    constructor
    · rintro ⟨hother, htaken⟩
      exact ⟨.inl hother, htaken⟩
    · rintro ⟨hother | rfl, hfile, hskip⟩
      · exact ⟨hother, hfile, hskip⟩
      · rw [hout hfile] at hskip
        contradiction
  ordered := (pairwise_idxOf_append hs.mem_paths [path]).mpr hs.ordered
  discovered_eq := by rw [card_filter_concat hnew, hs.discovered_eq]
  balance := by
    have hbalance := hs.balance
    dsimp only
    omega

/-- A new path that is reported stands behind all others. -/
theorem takeUp (hs : s.Reports isFile skip paths) (hnew : path ∉ paths)
    (hfile : isFile path = true) (hskip : skip path = false) :
    Scan.Reports isFile skip (paths ++ [path])
      { s with discovered := s.discovered + 1, files := s.files ++ [path] } where
  nodup := by
    refine hs.nodup.append (List.nodup_singleton path) ?_
    rw [List.disjoint_singleton]
    exact fun hpath => hnew (hs.mem_paths path hpath)
  mem_iff other := by
    rw [List.mem_append, List.mem_append, List.mem_singleton, hs.mem_iff, or_and_right]
    refine or_congr_right ⟨?_, And.left⟩
    rintro rfl
    exact ⟨rfl, hfile, hskip⟩
  ordered := by
    rw [List.pairwise_append, pairwise_idxOf_append hs.mem_paths [path]]
    refine ⟨hs.ordered, List.pairwise_singleton _ _, ?_⟩
    intro a ha b hb
    rw [List.mem_singleton.mp hb, List.idxOf_append_of_mem (hs.mem_paths a ha),
      List.idxOf_append_of_notMem hnew, List.idxOf_cons_self, Nat.add_zero]
    exact List.idxOf_lt_length_of_mem (hs.mem_paths a ha)
  discovered_eq := by rw [card_filter_concat hnew, hs.discovered_eq, if_pos hfile]
  balance := by
    have hbalance := hs.balance
    simp only [List.length_append, List.length_singleton]
    omega

end Scan.Reports

/-- One step of a pass keeps what its report says of the matches. -/
theorem reports_visit {s : Sweep} {path : String} (hseen : ∀ other, other ∈ s.seen ↔ other ∈ paths)
    (hs : s.report.Reports isFile skip paths) :
    (s.visit isFile skip path).report.Reports isFile skip (paths ++ [path]) := by
  rw [Sweep.visit]
  split_ifs with hold hfile hskip
  · exact hs.again ((hseen path).mp hold)
  all_goals have hnew : path ∉ paths := mt (hseen path).mpr hold
  · simpa [hfile] using hs.leaveOut hnew (fun h => absurd h (by simp [hfile]))
  · rw [Bool.not_eq_false] at hfile
    simpa [hfile] using hs.leaveOut hnew (fun _ => hskip)
  · rw [Bool.not_eq_false] at hfile
    rw [Bool.not_eq_true] at hskip
    exact hs.takeUp hnew hfile hskip

theorem reports_sweep (isFile skip : String → Bool) (paths : List String) :
    (sweep isFile skip paths).report.Reports isFile skip paths := by
  induction paths using List.reverseRecOn with
  | nil => exact ⟨List.nodup_nil, by simp [sweep, Sweep.start], List.Pairwise.nil, rfl, rfl⟩
  | append_singleton paths path ih =>
    rw [sweep_concat]
    exact reports_visit (fun _ => mem_seen_sweep) ih

/-- Reports on lists with the same members agree up to the order of the files. -/
theorem Scan.Reports.perm {s s' : Scan} {paths' : List String} (hs : s.Reports isFile skip paths)
    (hs' : s'.Reports isFile skip paths') (hsame : ∀ path, path ∈ paths' ↔ path ∈ paths) :
    s'.discovered = s.discovered ∧ s'.skipped = s.skipped ∧ s'.files.Perm s.files := by
  have hfiles : s'.files.Perm s.files := by
    rw [List.perm_ext_iff_of_nodup hs'.nodup hs.nodup]
    intro path
    rw [hs'.mem_iff, hs.mem_iff, hsame]
  have hdiscovered : s'.discovered = s.discovered := by
    have hfinset : paths'.toFinset = paths.toFinset := by
      ext path
      rw [List.mem_toFinset, List.mem_toFinset, hsame]
    rw [hs'.discovered_eq, hs.discovered_eq, hfinset]
  refine ⟨hdiscovered, ?_, hfiles⟩
  have hbalance := hs.balance
  have hbalance' := hs'.balance
  have hlength := hfiles.length_eq
  omega

/-! ## Patterns -/

/-- The matches of a pattern, none for a malformed one. -/
def matchesIn (glob : String → Option (List String)) (pattern : String) : List String :=
  (glob pattern).getD []

/-- Matches are collected to the end exactly if no pattern is malformed, and then they are
those of all patterns in order. -/
theorem collectMatches_eq_iff {glob : String → Option (List String)}
    {patterns matched : List String} :
    collectMatches glob patterns = (matched, none) ↔
      (∀ pattern ∈ patterns, glob pattern ≠ none) ∧
        matched = patterns.flatMap (matchesIn glob) := by
  induction patterns generalizing matched with
  | nil => simp [collectMatches, eq_comm]
  | cons pattern patterns ih =>
    rw [collectMatches]
    cases hglob : glob pattern with
    | none => simp [hglob]
    | some paths =>
      simp only [Prod.mk.injEq, List.mem_cons, forall_eq_or_imp, hglob, ne_eq, reduceCtorEq,
        not_false_eq_true, true_and, List.flatMap_cons, matchesIn, Option.getD_some]
      constructor
      · rintro ⟨rfl, hnone⟩
        obtain ⟨hwell, hothers⟩ := ih.mp (Prod.ext rfl hnone)
        exact ⟨hwell, congrArg (paths ++ ·) hothers⟩
      · rintro ⟨hwell, rfl⟩
        rw [ih.mpr ⟨hwell, rfl⟩]
        exact ⟨rfl, rfl⟩

namespace Workspace

/-- The matches of patterns in a directory, in the order of the patterns. -/
def matchesUnder (glob : Globber) (w : Workspace) (source : String) (patterns : List String) :
    List String :=
  patterns.flatMap (matchesIn fun pattern => glob w.files (Path.join source pattern))

theorem scanWith_eq_ok_iff {glob : Globber} {w w' : Workspace} {source : String}
    {patterns : List String} {s : Scan} :
    w.scanWith glob source patterns = (.ok s, w') ↔
      (∀ pattern ∈ patterns, glob w.files (Path.join source pattern) ≠ none) ∧
      s = .ofMatches w.files.isFile w.skips (w.matchesUnder glob source patterns) ∧
      w' = w.check (filesAmong w.files.isFile (w.matchesUnder glob source patterns)) := by
  rw [scanWith, scanIn, scanPatterns, matchesUnder, Prod.mk.injEq]
  split
  · rename_i matched e hmatches
    simp only [reduceCtorEq, false_and, false_iff, not_and]
    intro hwell
    rw [collectMatches_eq_iff.mpr ⟨hwell, rfl⟩] at hmatches
    simp at hmatches
  · rename_i matched hmatches
    obtain ⟨hwell, rfl⟩ := collectMatches_eq_iff.mp hmatches
    rw [hmatches, Except.ok.injEq, eq_comm (a := s), eq_comm (a := w')]
    exact ⟨fun h => ⟨hwell, h⟩, And.right⟩

/-- Whether the ignore list is kept depends on which files are asked about, not on their order. -/
theorem check_congr (w : Workspace) {paths paths' : List String}
    (hsame : ∀ path, path ∈ paths' ↔ path ∈ paths) : w.check paths' = w.check paths := by
  have hany : paths'.any asksIgnoreList = paths.any asksIgnoreList := by
    rw [Bool.eq_iff_iff, List.any_eq_true, List.any_eq_true]
    simp only [hsame]
  rw [check, check, checkIn, checkIn, hany]

end Workspace

/-- A scan comes to a report exactly if no pattern is malformed.  Its report is that of one pass
over the matches of all patterns, and it reports each of them once; with the same patterns in
another order, or repeated, the counts and the files are the same, and so is the workspace that
is left. -/
theorem scanWith_reports (glob : Globber) (w : Workspace) (source : String)
    (patterns : List String) :
    ((∃ s w', w.scanWith glob source patterns = (.ok s, w')) ↔
      ∀ pattern ∈ patterns, glob w.files (Path.join source pattern) ≠ none) ∧
    ∀ s w', w.scanWith glob source patterns = (.ok s, w') →
      s = (sweep w.files.isFile w.skips (w.matchesUnder glob source patterns)).report ∧
      s.Reports w.files.isFile w.skips (w.matchesUnder glob source patterns) ∧
      ∀ others : List String, (∀ pattern, pattern ∈ others ↔ pattern ∈ patterns) →
        ∃ s', w.scanWith glob source others = (.ok s', w') ∧ s'.discovered = s.discovered ∧
          s'.skipped = s.skipped ∧ s'.files.Perm s.files := by
  refine ⟨?_, ?_⟩
  · simp only [Workspace.scanWith_eq_ok_iff]
    exact ⟨fun ⟨_, _, hwell, _⟩ => hwell, fun hwell => ⟨_, _, hwell, rfl, rfl⟩⟩
  intro s w' hscan
  obtain ⟨hwell, rfl, rfl⟩ := Workspace.scanWith_eq_ok_iff.mp hscan
  rw [ofMatches_eq_sweep]
  refine ⟨rfl, reports_sweep _ _ _, ?_⟩
  intro others hothers
  have hmatches : ∀ path, path ∈ w.matchesUnder glob source others ↔
      path ∈ w.matchesUnder glob source patterns := by
    intro path
    simp only [Workspace.matchesUnder, List.mem_flatMap, hothers]
  have hfound : ∀ path, path ∈ filesAmong w.files.isFile (w.matchesUnder glob source others) ↔
      path ∈ filesAmong w.files.isFile (w.matchesUnder glob source patterns) := by
    intro path
    simp only [filesAmong, List.mem_filter, List.mem_eraseDups, hmatches]
  refine ⟨_, Workspace.scanWith_eq_ok_iff.mpr ⟨fun pattern hpattern => hwell pattern
    ((hothers pattern).mp hpattern), rfl, (w.check_congr hfound).symm⟩, ?_⟩
  rw [ofMatches_eq_sweep]
  exact (reports_sweep _ _ _).perm (reports_sweep _ _ _) hmatches

/-- A directory with a stylesheet's name, a stylesheet in it and one beside it that was
generated. -/
def overlapTree : FileTree :=
  ⟨[(["w"], .directory), (["w", "a.css"], .file []), (["w", "a.rem.css"], .file []),
    (["w", "d.css"], .directory), (["w", "d.css", "b.css"], .file [])], ["w"], by decide +kernel⟩

/-- Overlapping patterns, listed in two ways: the directory is no file, the generated sheet is
skipped and `a.css` is found once. -/
theorem scanWith_reports_overlap :
    ∃ w' : Workspace,
      Workspace.scanWith FileTree.glob? ⟨overlapTree, none⟩ "." ["*.css", "**/*.css"] =
        (.ok ⟨3, 1, ["a.css", "d.css/b.css"]⟩, w') ∧
      ∃ s', Workspace.scanWith FileTree.glob? ⟨overlapTree, none⟩ "."
          ["**/*.css", "*.css", "**/*.css"] = (.ok s', w') ∧
        s'.discovered = 3 ∧ s'.skipped = 1 ∧ s'.files.Perm ["a.css", "d.css/b.css"] := by
  have hdeep : overlapTree.glob? "**/*.css" =
      some ["a.css", "a.rem.css", "d.css", "d.css/b.css"] := by cbv
  have hflat : overlapTree.glob? "*.css" = some ["a.css", "a.rem.css", "d.css"] := by cbv
  have hjoinDeep : Path.join "." "**/*.css" = "**/*.css" := by decide +kernel
  have hjoinFlat : Path.join "." "*.css" = "*.css" := by decide +kernel
  have hmatches : Workspace.matchesUnder FileTree.glob? ⟨overlapTree, none⟩ "."
      ["*.css", "**/*.css"] =
        ["a.css", "a.rem.css", "d.css", "a.css", "a.rem.css", "d.css", "d.css/b.css"] := by
    simp [Workspace.matchesUnder, matchesIn, hjoinDeep, hjoinFlat, hdeep, hflat]
  have hscan := (@Workspace.scanWith_eq_ok_iff FileTree.glob? ⟨overlapTree, none⟩ _ "."
    ["*.css", "**/*.css"] _).mpr
      ⟨by simp [hjoinDeep, hjoinFlat, hdeep, hflat], rfl, rfl⟩
  rw [hmatches] at hscan
  have hreport : Scan.ofMatches overlapTree.isFile (Workspace.skips ⟨overlapTree, none⟩)
      ["a.css", "a.rem.css", "d.css", "a.css", "a.rem.css", "d.css", "d.css/b.css"] =
        ⟨3, 1, ["a.css", "d.css/b.css"]⟩ := by decide +kernel
  rw [hreport] at hscan
  obtain ⟨-, -, hothers⟩ := (scanWith_reports FileTree.glob? ⟨overlapTree, none⟩ "."
    ["*.css", "**/*.css"]).2 _ _ hscan
  exact ⟨_, hscan, hothers ["**/*.css", "*.css", "**/*.css"] (by simp [or_comm])⟩

end PixelRem
