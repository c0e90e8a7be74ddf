import Mathlib
import PixelRem.Proofs.RemSplit
import PixelRem.Sheet.PixelPass

/-!
# Where the two passes agree

The pass to another ratio gives every declaration of a block back, in order and under its
property (`declarations_scaleItems`).  The variants of the pass to root units are picked from
that: the variant for a ratio has what the other pass at that ratio makes of the forced
declarations.  A kept declaration comes out of both passes as it was, without its comment.
-/

namespace PixelRem

open Css

namespace Converter

/-- The value of a declaration at a ratio. -/
def scaledValue (c : Converter) (dpr : Decimal) (d : Declared) : Text :=
  if hasPixels d.value && c.directiveOf d.behind != .keep then
    c.convertValue (.pixels dpr) d.value
  else d.value

/-- What the items of a block at a ratio have in place of chosen declarations: their first
declaration stands for the first of the block, and so on. -/
def scaledFrom (c : Converter) (dpr : Decimal) (chosen : Declared → Bool) (items : List Item) :
    List (Text × Text) :=
  (((declared items).zip ((c.scaleItems dpr items).1.filterMap Item.declaration?)).filter
    (chosen ·.1)).map (·.2)

end Converter

section Passes

variable {c : Converter} {dpr : Decimal}

theorem scaledItem_entryOf (d : Declared) :
    c.scaledItem dpr (c.entryOf d) = .declaration d.property (c.scaledValue dpr d) := by
  rw [Converter.entryOf, Converter.scaledValue]
  cases hasPixels d.value with
  | false => rfl
  | true => cases c.directiveOf d.behind <;> rfl

theorem declarations_scaleItems (items : List Item) :
    (c.scaleItems dpr items).1.filterMap Item.declaration? =
      (declared items).map fun d => (d.property, c.scaledValue dpr d) := by
  have hitems : (c.scaleItems dpr items).1 = (c.entries items).map (c.scaledItem dpr) := rfl
  rw [hitems, List.filterMap_map, filterMap_entries_declared fun _ => rfl,
    ← List.filterMap_eq_map]
  congr 1
  funext d
  rw [Function.comp_apply, scaledItem_entryOf]
  rfl

theorem scaledFrom_eq (chosen : Declared → Bool) (items : List Item) :
    c.scaledFrom dpr chosen items =
      ((declared items).filter chosen).map fun d => (d.property, c.scaledValue dpr d) := by
  rw [Converter.scaledFrom, declarations_scaleItems]
  nth_rewrite 1 [← List.map_id (declared items)]
  rw [List.zip_map', List.filter_map, List.map_map]
  rfl

/-- A forced declaration is scaled in a variant as in the pass to the ratio. -/
theorem variantDeclaration_eq_scaled {d : Declared} (hforced : c.isForced false d = true)
    (n : Nat) :
    c.variantDeclaration n d = .declaration d.property (c.scaledValue (.ofNat n) d) := by
  simp only [Converter.isForced, Bool.not_false, Bool.true_and, Bool.and_eq_true,
    beq_iff_eq] at hforced
  obtain ⟨⟨hpixels, hdirective⟩, -⟩ := hforced
  rw [Converter.variantDeclaration, Converter.scaledValue, hpixels, hdirective]
  rfl

theorem variants_eq_scaled (block : Block)
    (hvariants : (c.remBlocks block false).variants ≠ []) :
    (c.remBlocks block false).variants = ratios.map fun n =>
      ⟨block.selectors.map (variantSelector n),
        (c.scaledFrom (.ofNat n) (c.isForced false) block.items).map
          fun d => .declaration d.1 d.2⟩ := by
  have hblocks : (c.remBlocks block false).variants = c.variantBlocks block.selectors
      ((c.entries block.items).filter (·.hasVariants false)) := rfl
  rw [hblocks, variantBlocks_forced] at hvariants ⊢
  split_ifs at hvariants ⊢
  · exact absurd rfl hvariants
  apply List.map_congr_left
  intro n _
  rw [scaledFrom_eq, List.map_map]
  congr 1
  apply List.map_congr_left
  intro d hd
  exact variantDeclaration_eq_scaled (List.mem_filter.mp hd).2 n

end Passes

section Kept

variable {c : Converter} {property value text : Text} (hpixels : hasPixels value = true)
  (hkeep : Text.trim text = c.settings.keepComment)

include hpixels hkeep

theorem remItems_kept (inKeyframes : Bool) (before behind : List Item) :
    c.remItems inKeyframes (before ++ .declaration property value :: .comment text :: behind) =
      c.remItems inKeyframes before ++
        .declaration property value :: c.remItems inKeyframes behind := by
  simp only [Converter.remItems]
  rw [entries_kept hpixels hkeep, List.filter_append, List.map_append, List.filter_cons_of_pos]
  · rfl
  · rfl

theorem scaleItems_kept (dpr : Decimal) (before behind : List Item) :
    (c.scaleItems dpr (before ++ .declaration property value :: .comment text :: behind)).1 =
      (c.scaleItems dpr before).1 ++
        .declaration property value :: (c.scaleItems dpr behind).1 := by
  simp only [Converter.scaleItems]
  rw [entries_kept hpixels hkeep, List.map_append]
  rfl

end Kept

theorem base_of_remItems {c : Converter} {block : Block} {inKeyframes : Bool}
    (hitems : c.remItems inKeyframes block.items ≠ []) :
    (c.remBlocks block inKeyframes).base =
      some ⟨block.selectors, c.remItems inKeyframes block.items⟩ := by
  have hsome : ¬ (c.remItems inKeyframes block.items).isEmpty = true := by
    rwa [List.isEmpty_iff]
  exact if_neg hsome

/-- The two passes agree.  The ratio of a variant is the one that the sheet for the ratio is
scaled to.  If a block has variants, each holds, in order, what the pass to its ratio makes of
the forced declarations, and that pass has one declaration for each of the block.  A kept
declaration, one with a pixel length that the keep comment follows, comes unchanged out of both
passes and its comment out of neither. -/
theorem passes_agree (c : Converter) (block : Block) :
    (∀ n ∈ ratios, (Binary64.ofNat n).positive? = some (.ofNat n)) ∧
    ((c.remBlocks block false).variants ≠ [] →
      (c.remBlocks block false).variants = ratios.map fun n =>
        ⟨block.selectors.map (variantSelector n),
          (c.scaledFrom (.ofNat n) (c.isForced false) block.items).map
            fun d => .declaration d.1 d.2⟩) ∧
    (∀ dpr, ((c.scaleItems dpr block.items).1.filterMap Item.declaration?).length =
      (declared block.items).length) ∧
    ∀ before property value text behind,
      block.items = before ++ .declaration property value :: .comment text :: behind →
      hasPixels value = true → Text.trim text = c.settings.keepComment →
      (c.remBlocks block false).base = some ⟨block.selectors,
        c.remItems false before ++ .declaration property value :: c.remItems false behind⟩ ∧
      ∀ dpr, (c.scaleItems dpr block.items).1 =
        (c.scaleItems dpr before).1 ++
          .declaration property value :: (c.scaleItems dpr behind).1 := by
  refine ⟨by decide +kernel, variants_eq_scaled block, fun dpr => ?_, ?_⟩
  · rw [declarations_scaleItems, List.length_map]
  · intro before property value text behind hitems hpixels hkeep
    have hleft : c.remItems false block.items = c.remItems false before ++
        .declaration property value :: c.remItems false behind := by
      rw [hitems, remItems_kept hpixels hkeep]
    refine ⟨?_, fun dpr => ?_⟩
    · rw [base_of_remItems (by simp [hleft]), hleft]
    · rw [hitems, scaleItems_kept hpixels hkeep]

/-- A block with a forced declaration and a kept one. -/
theorem passes_agree_block :
    ∃ c block, Settings.default.toConverter = .ok c ∧
      (c.remBlocks block false).variants ≠ [] ∧
      ((c.remBlocks block false).variants = ratios.map fun n =>
        ⟨block.selectors.map (variantSelector n),
          (c.scaledFrom (.ofNat n) (c.isForced false) block.items).map
            fun d => .declaration d.1 d.2⟩) ∧
      ∃ before property value text behind,
        block.items = before ++ .declaration property value :: .comment text :: behind ∧
        hasPixels value = true ∧ Text.trim text = c.settings.keepComment ∧
        (c.remBlocks block false).base = some ⟨block.selectors,
          c.remItems false before ++ .declaration property value :: c.remItems false behind⟩ := by
  have hpixels : hasPixels (utf8 "5px") = true := by decide +kernel
  have hkeep : Text.trim (utf8 "no") = utf8 "no" := by decide +kernel
  refine ⟨_, ⟨[utf8 "a"], [.declaration (utf8 "width") (utf8 "10px"), .comment (utf8 " px "),
    .declaration (utf8 "height") (utf8 "5px"), .comment (utf8 "no")]⟩, rfl, by decide +kernel,
    (passes_agree _ _).2.1 (by decide +kernel),
    [.declaration (utf8 "width") (utf8 "10px"), .comment (utf8 " px ")], utf8 "height",
    utf8 "5px", utf8 "no", [], rfl, hpixels, hkeep, ?_⟩
  exact ((passes_agree _ _).2.2.2 _ _ _ _ _ rfl hpixels hkeep).1

end PixelRem
