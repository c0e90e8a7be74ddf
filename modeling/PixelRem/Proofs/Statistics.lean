import Mathlib
import PixelRem.Proofs.PassAgreement
import PixelRem.Proofs.PixelFree
import PixelRem.Proofs.Visits
import PixelRem.Sheet.Generate

/-!
# What the statistics of a pass say

The counts of a pass account for its output.  `RemCounts` and `PixelCounts` say what the counts
are, in terms of the blocks that were visited and of their declarations.  A block adds what it
should to them (`RemCounts.visit`, `PixelCounts.visit`), and so they hold behind the whole walk.

The blocks of the new tree are counted from the blocks of the old one: each leaves itself, unless
it is pruned, and the variants, if a declaration is forced.
-/

namespace PixelRem

open Css

/-- How many declarations with a pixel length the blocks have. -/
def lengthCount (vs : List Visit) : Nat :=
  (vs.flatMap fun v => declared v.block.items).countP (hasPixels ·.value)

namespace Converter

/-- Whether a block has a declaration that is forced to pixels, so that it gets variants. -/
def splits (c : Converter) (v : Visit) : Bool :=
  (declared v.block.items).any (c.isForced v.inKeyframes)

/-- Whether nothing stays in a block: its declarations are all forced to pixels, and its comments
all direct one. -/
def leavesNothing (c : Converter) (v : Visit) : Bool :=
  (declared v.block.items).all (c.isForced v.inKeyframes) && (c.undirected v.block.items).isEmpty

/-- The counts of the pass to root units over some blocks. -/
structure RemCounts (c : Converter) (vs : List Visit) (s : Stats) : Prop where
  rules : s.rules = vs.length
  lengths : s.converted + s.kept + s.forced = lengthCount vs
  variantRules : s.variantRules = 3 * vs.countP c.splits
  pruned : s.pruned = vs.countP c.leavesNothing

/-- The counts of the pass to a ratio over some blocks. -/
structure PixelCounts (vs : List Visit) (s : Stats) : Prop where
  rules : s.rules = vs.length
  lengths : s.converted + s.kept = lengthCount vs
  forced : s.forced ≤ s.converted
  variantRules : s.variantRules = 0
  pruned : s.pruned = 0

end Converter

/-! ## Counts of entries -/

section Entries

variable {c : Converter}

/-- Whether an entry is a declaration with a pixel length. -/
def Entry.isLength : Entry → Bool
  | .plain _ => false
  | .length .. => true

theorem lengthCount_append (vs : List Visit) (v : Visit) :
    lengthCount (vs ++ [v]) =
      lengthCount vs + (declared v.block.items).countP (hasPixels ·.value) := by
  simp [lengthCount]

theorem isLength_entryOf (d : Declared) : (c.entryOf d).isLength = hasPixels d.value := by
  rw [Converter.entryOf]
  cases hasPixels d.value <;> rfl

theorem countP_isLength_entries (items : List Item) :
    (c.entries items).countP Entry.isLength = (declared items).countP (hasPixels ·.value) := by
  rw [List.countP_eq_length_filter, filter_entries_declared fun _ => rfl,
    ← List.countP_eq_length_filter, List.countP_map]
  congr 1
  funext d
  exact isLength_entryOf d

theorem Stats.total_cons (s : Stats) (parts : List Stats) :
    Stats.total (s :: parts) = s.add (Stats.total parts) := rfl

theorem remStats_entry (inKeyframes : Bool) (entry : Entry) :
    let s := Converter.remStats inKeyframes entry
    s.converted + s.kept + s.forced = (if entry.isLength then 1 else 0) ∧
      s.rules = 0 ∧ s.variantRules = 0 ∧ s.pruned = 0 := by
  cases entry with
  | plain => exact ⟨rfl, rfl, rfl, rfl⟩
  | length property value directive =>
    cases directive with
    | none | keep => exact ⟨rfl, rfl, rfl, rfl⟩
    | forcePx =>
      by_cases hforced : value = utf8 "0px" ∨ inKeyframes = false
      · simp [Converter.remStats, hforced, Entry.isLength]
      · simp [Converter.remStats, hforced, Entry.isLength]

theorem scaledStats_entry (entry : Entry) :
    let s := Converter.scaledStats entry
    s.converted + s.kept = (if entry.isLength then 1 else 0) ∧ s.forced ≤ s.converted ∧
      s.rules = 0 ∧ s.variantRules = 0 ∧ s.pruned = 0 := by
  cases entry with
  | plain => exact ⟨rfl, Nat.le_refl 0, rfl, rfl, rfl⟩
  | length property value directive =>
    cases directive with
    | none | keep => exact ⟨rfl, Nat.zero_le _, rfl, rfl, rfl⟩
    | forcePx => exact ⟨rfl, Nat.le_refl 1, rfl, rfl, rfl⟩

/-- Entries count once for each pixel length in the pass to root units, and for nothing else. -/
theorem total_remStats (inKeyframes : Bool) (entries : List Entry) :
    let s := Stats.total (entries.map (Converter.remStats inKeyframes))
    s.converted + s.kept + s.forced = entries.countP Entry.isLength ∧
      s.rules = 0 ∧ s.variantRules = 0 ∧ s.pruned = 0 := by
  induction entries with
  | nil => exact ⟨rfl, rfl, rfl, rfl⟩
  | cons entry entries ih =>
    have hentry := remStats_entry inKeyframes entry
    simp only [List.map_cons, Stats.total_cons, Stats.add, List.countP_cons] at ih hentry ⊢
    omega

/-- Entries count once for each pixel length in the pass to a ratio, where a forced length is
converted too. -/
theorem total_scaledStats (entries : List Entry) :
    let s := Stats.total (entries.map Converter.scaledStats)
    s.converted + s.kept = entries.countP Entry.isLength ∧ s.forced ≤ s.converted ∧
      s.rules = 0 ∧ s.variantRules = 0 ∧ s.pruned = 0 := by
  induction entries with
  | nil => exact ⟨rfl, Nat.le_refl 0, rfl, rfl, rfl⟩
  | cons entry entries ih =>
    have hentry := scaledStats_entry entry
    simp only [List.map_cons, Stats.total_cons, Stats.add, List.countP_cons] at ih hentry ⊢
    omega

end Entries

/-! ## One block -/

section Block

variable {c : Converter}

theorem eq_nil_of_declarations_of_comments {items : List Item}
    (hdeclarations : items.filterMap Item.declaration? = [])
    (hcomments : items.filterMap Item.comment? = []) : items = [] := by
  cases items with
  | nil => rfl
  | cons item items =>
    cases item with
    | declaration property value => exact absurd hdeclarations (by simp [Item.declaration?])
    | comment text => exact absurd hcomments (by simp [Item.comment?])

theorem isEmpty_remItems (v : Visit) :
    (c.remItems v.inKeyframes v.block.items).isEmpty = c.leavesNothing v := by
  have hdeclarations : (c.remItems v.inKeyframes v.block.items).filterMap Item.declaration? = _ :=
    declarations_remItems v.block.items
  have hcomments : (c.remItems v.inKeyframes v.block.items).filterMap Item.comment? = _ :=
    comments_remItems v.block.items
  rw [Bool.eq_iff_iff, List.isEmpty_iff, Converter.leavesNothing, Bool.and_eq_true,
    List.isEmpty_iff, List.all_eq_true]
  constructor
  · intro hnil
    rw [hnil, List.filterMap_nil] at hdeclarations hcomments
    refine ⟨?_, hcomments.symm⟩
    have hfilter := List.map_eq_nil_iff.mp hdeclarations.symm
    simpa using hfilter
  · intro ⟨hall, hundirected⟩
    apply eq_nil_of_declarations_of_comments
    · rw [hdeclarations, List.map_eq_nil_iff, List.filter_eq_nil_iff]
      intro d hd
      simp [hall d hd]
    · rw [hcomments, hundirected]

theorem length_variants (v : Visit) :
    (c.remBlocks v.block v.inKeyframes).variants.length = if c.splits v then 3 else 0 := by
  have hblocks : (c.remBlocks v.block v.inKeyframes).variants = c.variantBlocks v.block.selectors
      ((c.entries v.block.items).filter (·.hasVariants v.inKeyframes)) := rfl
  have hsplits : ((declared v.block.items).filter (c.isForced v.inKeyframes)).isEmpty =
      !c.splits v := by
    rw [Converter.splits, Bool.eq_iff_iff]
    simp
  rw [hblocks, variantBlocks_forced, hsplits]
  cases c.splits v <;> rfl

/-- A block leaves itself unless nothing stays in it, and three variants if it splits. -/
theorem length_remBlocks (v : Visit) :
    (c.remBlocks v.block v.inKeyframes).toList.length =
      (if c.leavesNothing v then 0 else 1) + if c.splits v then 3 else 0 := by
  have hbase : (c.remBlocks v.block v.inKeyframes).base =
      if (c.remItems v.inKeyframes v.block.items).isEmpty then none
      else some ⟨v.block.selectors, c.remItems v.inKeyframes v.block.items⟩ := rfl
  rw [RemBlocks.toList, List.length_append, length_variants, hbase, isEmpty_remItems]
  split_ifs <;> rfl

/-- No block of what a block becomes is empty. -/
theorem items_ne_nil_of_mem_remBlocks {v : Visit} {block : Block}
    (hblock : block ∈ (c.remBlocks v.block v.inKeyframes).toList) : block.items ≠ [] := by
  rw [RemBlocks.toList, List.mem_append] at hblock
  rcases hblock with hbase | hvariant
  · have hsome : (if (c.remItems v.inKeyframes v.block.items).isEmpty then none
        else some ⟨v.block.selectors, c.remItems v.inKeyframes v.block.items⟩) = some block :=
      Option.mem_toList.mp hbase
    split_ifs at hsome with hempty
    rw [← Option.some.inj hsome]
    exact fun hnil => hempty (List.isEmpty_iff.mpr hnil)
  · have hblocks : block ∈ c.variantBlocks v.block.selectors
        ((c.entries v.block.items).filter (·.hasVariants v.inKeyframes)) := hvariant
    rw [Converter.variantBlocks] at hblocks
    split_ifs at hblocks with hempty
    · exact absurd hblocks List.not_mem_nil
    · obtain ⟨dpr, -, rfl⟩ := List.mem_map.mp hblocks
      exact fun hnil => hempty (List.isEmpty_iff.mpr (List.map_eq_nil_iff.mp hnil))

/-- What one more block adds to the counts of the pass to root units. -/
theorem Converter.RemCounts.visit {vs : List Visit} {s : Stats} (h : c.RemCounts vs s) (v : Visit) :
    c.RemCounts (vs ++ [v]) (v.after c.remVisit s) := by
  obtain ⟨hlengths, hrules, hvariants, hpruned⟩ :=
    total_remStats v.inKeyframes (c.entries v.block.items)
  have hsplits := length_variants (c := c) v
  have hempty := isEmpty_remItems (c := c) v
  rw [countP_isLength_entries] at hlengths
  have hafter : v.after c.remVisit s = (s.add { rules := 1 }).add
      ((Stats.total ((c.entries v.block.items).map (Converter.remStats v.inKeyframes))).add
        { variantRules := (c.remBlocks v.block v.inKeyframes).variants.length
          pruned := if (c.remItems v.inKeyframes v.block.items).isEmpty then 1 else 0 }) := rfl
  rw [hafter, hsplits, hempty]
  constructor
  · simp only [Stats.add, h.rules, hrules, List.length_append, List.length_singleton]
  · simp only [Stats.add, lengthCount_append, ← hlengths, ← h.lengths]
    omega
  · simp only [Stats.add, h.variantRules, hvariants, List.countP_append, List.countP_singleton]
    split_ifs <;> omega
  · simp only [Stats.add, h.pruned, hpruned, List.countP_append, List.countP_singleton]
    omega

/-- What one more block adds to the counts of the pass to a ratio. -/
theorem Converter.PixelCounts.visit {dpr : Decimal} {vs : List Visit} {s : Stats}
    (h : PixelCounts vs s) (v : Visit) :
    PixelCounts (vs ++ [v]) (v.after (c.scaleVisit dpr) s) := by
  obtain ⟨hlengths, hforced, hrules, hvariants, hpruned⟩ :=
    total_scaledStats (c.entries v.block.items)
  rw [countP_isLength_entries] at hlengths
  have hafter : v.after (c.scaleVisit dpr) s = (s.add { rules := 1 }).add
      (Stats.total ((c.entries v.block.items).map Converter.scaledStats)) := rfl
  rw [hafter]
  constructor
  · simp only [Stats.add, h.rules, hrules, List.length_append, List.length_singleton]
  · simp only [Stats.add, lengthCount_append, ← hlengths, ← h.lengths]
    omega
  · exact Nat.add_le_add (Nat.add_le_add h.forced (Nat.le_refl 0)) hforced
  · simp only [Stats.add, h.variantRules, hvariants]
  · simp only [Stats.add, h.pruned, hpruned]

end Block

/-! ## A whole tree -/

section Tree

variable (c : Converter) (rules : List Rule)

theorem remCounts_remRules : c.RemCounts (visits false rules) (c.remRules rules).2 :=
  walkRules_induction ⟨rfl, rfl, rfl, rfl⟩ (fun _ v _ h => h.visit v) false rules

theorem pixelCounts_scaleRules (dpr : Decimal) :
    Converter.PixelCounts (visits false rules) (c.scaleRules dpr rules).2 :=
  walkRules_induction ⟨rfl, rfl, Nat.le_refl 0, rfl, rfl⟩ (fun _ v _ h => h.visit v) false rules

theorem visits_remRules :
    visits false (c.remRules rules).1 = (visits false rules).flatMap fun v =>
      (c.remBlocks v.block v.inKeyframes).toList.map fun block => ⟨v.kind, block, v.inKeyframes⟩ :=
  (walked_remRules c rules).visits_eq fun _ _ _ _ hfirst => hfirst

theorem visits_scaleRules (dpr : Decimal) :
    visits false (c.scaleRules dpr rules).1 = (visits false rules).flatMap fun v =>
      [⟨v.block.selectors, (c.scaleItems dpr v.block.items).1⟩].map
        fun block => ⟨v.kind, block, v.inKeyframes⟩ :=
  (walked_scaleRules c dpr rules).visits_eq fun _ _ _ _ hfirst => hfirst

/-- The blocks of the tree in root units: all but the pruned ones, and the variants. -/
theorem length_visits_remRules :
    (visits false (c.remRules rules).1).length + (visits false rules).countP c.leavesNothing =
      (visits false rules).length + 3 * (visits false rules).countP c.splits := by
  rw [visits_remRules]
  induction visits false rules with
  | nil => rfl
  | cons v vs ih =>
    have hblock := length_remBlocks (c := c) v
    simp only [List.flatMap_cons, List.length_append, List.length_map, List.countP_cons,
      List.length_cons] at ih hblock ⊢
    split_ifs at hblock ⊢ <;> omega

theorem items_ne_nil_of_mem_visits {v : Visit} (hv : v ∈ visits false (c.remRules rules).1) :
    v.block.items ≠ [] := by
  rw [visits_remRules] at hv
  obtain ⟨source, -, hblock⟩ := List.mem_flatMap.mp hv
  obtain ⟨block, hmem, rfl⟩ := List.mem_map.mp hblock
  exact items_ne_nil_of_mem_remBlocks hmem

theorem length_visits_scaleRules (dpr : Decimal) :
    (visits false (c.scaleRules dpr rules).1).length = (visits false rules).length := by
  rw [visits_scaleRules]
  simp

end Tree

/-- The statistics account for the output.  In root units every declaration with a pixel length is
converted, kept or forced; the blocks of the new tree are those of the source without the pruned
ones, those in which nothing stays, and with three variants for each that has a forced
declaration; and none is empty.  At a ratio, forced declarations are among the converted ones and
every block stays. -/
theorem statistics_account (c : Converter) (css : Text) (rules : List Rule)
    (hparse : parse css = .ok rules) :
    (∃ out s, c.remRules rules = (out, s) ∧ c.generateRem css = .ok ⟨print out, s⟩ ∧
      c.RemCounts (visits false rules) s ∧ s.pruned ≤ s.rules ∧
      (visits false out).length = s.rules - s.pruned + s.variantRules ∧
      ∀ v ∈ visits false out, v.block.items ≠ []) ∧
    ∀ dpr : Binary64, dpr.isZero = true ∨ dpr.positive?.isSome = true →
      ∃ shown ratio out s, shown.positive? = some ratio ∧ c.scaleRules ratio rules = (out, s) ∧
        c.generatePixel css dpr = .ok ⟨print out, s, shown⟩ ∧
        Converter.PixelCounts (visits false rules) s ∧ (visits false out).length = s.rules := by
  constructor
  · have hcounts := remCounts_remRules c rules
    have hlength := length_visits_remRules c rules
    have hpruned : (visits false rules).countP c.leavesNothing ≤ (visits false rules).length :=
      List.countP_le_length
    refine ⟨(c.remRules rules).1, (c.remRules rules).2, rfl, ?_, hcounts, ?_, ?_,
      fun v hv => items_ne_nil_of_mem_visits c rules hv⟩
    · rw [Converter.generateRem, hparse]
    · rw [hcounts.pruned, hcounts.rules]
      exact hpruned
    · rw [hcounts.pruned, hcounts.rules, hcounts.variantRules]
      omega
  · intro dpr hdpr
    obtain ⟨ratio, hratio⟩ := exists_ratio hdpr
    have hcounts := pixelCounts_scaleRules c rules ratio
    refine ⟨_, ratio, (c.scaleRules ratio rules).1, (c.scaleRules ratio rules).2, hratio, rfl, ?_,
      hcounts, ?_⟩
    · simp only [Converter.generatePixel, hratio, hparse]
    · rw [hcounts.rules, length_visits_scaleRules]

/-- A rule of which only variants are left, and a keyframe in which a forced length is converted. -/
theorem statistics_account_pruned :
    ∃ c css rules, Settings.default.toConverter = .ok c ∧ parse css = .ok rules ∧
      (visits false rules).length = 2 ∧ lengthCount (visits false rules) = 2 ∧
      (∃ out s, c.remRules rules = (out, s) ∧ c.generateRem css = .ok ⟨print out, s⟩ ∧
        c.RemCounts (visits false rules) s ∧ s.pruned ≤ s.rules ∧
        (visits false out).length = s.rules - s.pruned + s.variantRules ∧
        ∀ v ∈ visits false out, v.block.items ≠ []) ∧
      (visits false rules).countP c.splits = 1 ∧ (visits false rules).countP c.leavesNothing = 1 ∧
      (Binary64.ofNat 3).positive?.isSome = true ∧
      ∃ shown ratio out s, shown.positive? = some ratio ∧ c.scaleRules ratio rules = (out, s) ∧
        c.generatePixel css (.ofNat 3) = .ok ⟨print out, s, shown⟩ ∧
        Converter.PixelCounts (visits false rules) s ∧ (visits false out).length = s.rules := by
  have htokens : tokenize (utf8 "a\x7bb:1px;/*px*/\x7d@keyframes k\x7bto\x7bb:1px;/*px*/\x7d\x7d") =
      ([⟨.ident, utf8 "a", 0⟩] ++ ⟨.leftBrace, [0x7B], 1⟩ ::
        ((([⟨.ident, utf8 "b", 2⟩] ++ ⟨.colon, utf8 ":", 3⟩ :: [⟨.dimension, utf8 "1px", 4⟩]) ++
          ⟨.semicolon, utf8 ";", 7⟩ :: [⟨.comment, utf8 "/*px*/", 8⟩]) ++
        [⟨.rightBrace, [0x7D], 14⟩])) ++
      (⟨.atKeyword, utf8 "@keyframes", 15⟩ ::
        ([⟨.whitespace, utf8 " ", 25⟩, ⟨.ident, utf8 "k", 26⟩] ++ ⟨.leftBrace, [0x7B], 27⟩ ::
          (([⟨.ident, utf8 "to", 28⟩] ++ ⟨.leftBrace, [0x7B], 30⟩ ::
              ((([⟨.ident, utf8 "b", 31⟩] ++ ⟨.colon, utf8 ":", 32⟩ ::
                  [⟨.dimension, utf8 "1px", 33⟩]) ++
                ⟨.semicolon, utf8 ";", 36⟩ :: [⟨.comment, utf8 "/*px*/", 37⟩]) ++
              [⟨.rightBrace, [0x7D], 43⟩]) ++ []) ++ ⟨.rightBrace, [0x7D], 44⟩ :: []))) := by
    decide +kernel
  have hname : Token.IsWord ⟨.ident, utf8 "k", 26⟩ := by decide
  have hparse : parse (utf8 "a\x7bb:1px;/*px*/\x7d@keyframes k\x7bto\x7bb:1px;/*px*/\x7d\x7d") =
      .ok [.style ⟨[utf8 "a"], [.declaration (utf8 "b") (utf8 "1px"), .comment (utf8 "px")]⟩,
        .keyframes [] (utf8 "k") [.keyframe
          ⟨[utf8 "to"], [.declaration (utf8 "b") (utf8 "1px"), .comment (utf8 "px")]⟩]] := by
    apply @parse_of_ruleSeq anyRun
    rw [htokens]
    exact .word (by decide) trivial rfl
      (.words (by decide) (by decide) rfl rfl rfl trivial trivial) rfl
      (.keyframes ⟨[], .inl rfl, rfl, rfl⟩ (hname.isPrelude_blank _ _) trivial rfl
        (.keyframe (.word (by decide) trivial rfl
          (.words (by decide) (by decide) rfl rfl rfl trivial trivial) rfl) .nil)
        rfl .nil)
  have hratio : (Binary64.ofNat 3).positive?.isSome = true := by decide +kernel
  exact ⟨_, _, _, rfl, hparse, by decide +kernel, by decide +kernel,
    (statistics_account _ _ _ hparse).1, by decide +kernel, by decide +kernel, hratio,
    (statistics_account _ _ _ hparse).2 _ (.inr hratio)⟩

end PixelRem
