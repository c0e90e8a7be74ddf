import Mathlib
import PixelRem.Proofs.PassAgreement
import PixelRem.Proofs.Trimming

/-!
# Directing words that work

A comment directs the declaration before it if its trimmed text is one of the two words of the
settings.  So a word works if it is trimmed itself, and then with any white space around it; a
word that has white space at one of its ends is accepted as well but no comment gives it.

A directed declaration with its comment is one step of the pass to root units, apart from what
stands around it (`remItems_around`).
-/

namespace PixelRem

open Css

/-- The word that gives a directive. -/
def Converter.wordOf (c : Converter) : Directive → Option Text
  | .none => none
  | .keep => some c.settings.keepComment
  | .forcePx => some c.settings.forcePxComment

section Words

variable {c : Converter} {directive : Directive} {word text : Text}

theorem directiveOf_eq_iff (hword : c.wordOf directive = some word) :
    c.directiveOf (some (.comment text)) = directive ↔ Text.trim text = word := by
  rw [Converter.directiveOf]
  cases directive with
  | none => cases hword
  | keep =>
    obtain rfl := Option.some.inj hword
    split_ifs <;> simp_all
  | forcePx =>
    obtain rfl := Option.some.inj hword
    split_ifs with hkeep hforce
    · simp [hkeep, c.force_ne_keep.symm]
    · simp [hforce]
    · simp [hforce]

theorem ne_none_of_wordOf (hword : c.wordOf directive = some word) : directive ≠ .none := by
  rintro rfl
  cases hword

end Words

section Pass

variable {c : Converter} {inKeyframes : Bool}

theorem remItems_around {property value text : Text} (hpixels : hasPixels value = true)
    (hdirective : c.directiveOf (some (.comment text)) ≠ .none) (before behind : List Item) :
    c.remItems inKeyframes (before ++ .declaration property value :: .comment text :: behind) =
      c.remItems inKeyframes before ++
        c.leftOf inKeyframes (.length property value (c.directiveOf (some (.comment text)))) ++
          c.remItems inKeyframes behind := by
  simp only [Converter.remItems, Converter.leftOf]
  rw [entries_directed hpixels hdirective, List.filter_append, List.map_append, List.filter_cons]
  split_ifs <;> simp_all

/-- A directed declaration leaves no comment. -/
theorem comments_leftOf_length (property value : Text) (directive : Directive) :
    (c.leftOf inKeyframes (.length property value directive)).filterMap Item.comment? = [] := by
  rw [Converter.leftOf]
  split_ifs
  · rfl
  · cases directive <;> rfl

theorem items_base (block : Block) :
    (c.remBlocks block inKeyframes).base.toList.flatMap Block.items =
      c.remItems inKeyframes block.items := by
  by_cases hitems : c.remItems inKeyframes block.items = []
  · have hbase : (c.remBlocks block inKeyframes).base = none :=
      if_pos (List.isEmpty_iff.mpr hitems)
    rw [hbase, hitems]
    rfl
  · rw [base_of_remItems hitems]
    simp

theorem comments_variants (block : Block) :
    ((c.remBlocks block inKeyframes).variants.flatMap Block.items).filterMap Item.comment? =
      [] := by
  have hblocks : (c.remBlocks block inKeyframes).variants = c.variantBlocks block.selectors
      ((c.entries block.items).filter (·.hasVariants inKeyframes)) := rfl
  rw [hblocks, variantBlocks_forced]
  split_ifs
  · rfl
  · rw [List.filterMap_eq_nil_iff]
    intro item hitem
    obtain ⟨_, hvariant, hitem⟩ := List.mem_flatMap.mp hitem
    obtain ⟨dpr, -, rfl⟩ := List.mem_map.mp hvariant
    obtain ⟨d, -, rfl⟩ := List.mem_map.mp hitem
    rfl

/-- The comments behind the pass are those that direct nothing. -/
theorem comments_remBlocks (block : Block) :
    ((c.remBlocks block inKeyframes).toList.flatMap Block.items).filterMap Item.comment? =
      c.undirected block.items := by
  rw [RemBlocks.toList, List.flatMap_append, List.filterMap_append, items_base, comments_remItems,
    comments_variants, List.append_nil]

theorem undirected_around {property value text : Text} (hpixels : hasPixels value = true)
    (hdirective : c.directiveOf (some (.comment text)) ≠ .none) (before behind : List Item) :
    c.undirected (before ++ .declaration property value :: .comment text :: behind) =
      c.undirected before ++ c.undirected behind := by
  have hcomments (items : List Item) :
      c.undirected items = (c.remItems false items).filterMap Item.comment? :=
    (comments_remItems items).symm
  rw [hcomments, remItems_around hpixels hdirective, List.filterMap_append, List.filterMap_append,
    comments_leftOf_length, List.append_nil, ← hcomments, ← hcomments]

end Pass

/-- A directing word works if and only if it has no white space at its ends.  If it has none, the
comments that give the directive are those with the word between white space, wherever they stand
behind a declaration with a pixel length: the pass to root units leaves a kept declaration as it
is in its place, and takes the comment of a kept or forced one out of everything it makes of the
block.  If it has some, no comment at all gives the directive. -/
theorem directingWords_work (c : Converter) (directive : Directive) (word : Text)
    (hword : c.wordOf directive = some word) :
    (∀ text, c.directiveOf (some (.comment text)) = directive ↔
      Text.trim word = word ∧ Text.IsPadded word text) ∧
    (Text.trim word = word → ∀ inKeyframes block before property value text behind,
      block.items = before ++ .declaration property value :: .comment text :: behind →
      hasPixels value = true → Text.IsPadded word text →
      (directive = .keep → (c.remBlocks block inKeyframes).base = some ⟨block.selectors,
        c.remItems inKeyframes before ++
          .declaration property value :: c.remItems inKeyframes behind⟩) ∧
      ((c.remBlocks block inKeyframes).toList.flatMap Block.items).filterMap Item.comment? =
        c.undirected before ++ c.undirected behind) := by
  have hgives (text : Text) : c.directiveOf (some (.comment text)) = directive ↔
      Text.trim word = word ∧ Text.IsPadded word text :=
    (directiveOf_eq_iff hword).trans Text.trim_eq_iff
  refine ⟨hgives, ?_⟩
  intro htrim inKeyframes block before property value text behind hitems hpixels hpadded
  have hdirective := (hgives text).mpr ⟨htrim, hpadded⟩
  have hsome : c.directiveOf (some (.comment text)) ≠ .none := by
    rw [hdirective]
    exact ne_none_of_wordOf hword
  constructor
  · rintro rfl
    have hleft : c.remItems inKeyframes block.items = c.remItems inKeyframes before ++
        .declaration property value :: c.remItems inKeyframes behind := by
      rw [hitems, remItems_kept hpixels (directiveOf_eq_keep hdirective)]
    rw [base_of_remItems (by simp [hleft]), hleft]
  · rw [comments_remBlocks, hitems, undirected_around hpixels hsome]

/-- A kept length whose comment has a wide space before its word and a line end behind it. -/
theorem directingWords_work_padded :
    ∃ c text, Settings.default.toConverter = .ok c ∧ c.wordOf .keep = some (utf8 "no") ∧
      Text.trim (utf8 "no") = utf8 "no" ∧ hasPixels (utf8 "5px") = true ∧
      Text.IsPadded (utf8 "no") text ∧ text ≠ utf8 "no" ∧
      c.directiveOf (some (.comment text)) = .keep ∧
      (c.remBlocks ⟨[utf8 "a"], [.declaration (utf8 "width") (utf8 "5px"), .comment text,
          .comment (utf8 "x")]⟩ false).base =
        some ⟨[utf8 "a"], c.remItems false [] ++
          .declaration (utf8 "width") (utf8 "5px") :: c.remItems false [.comment (utf8 "x")]⟩ := by
  have htrim : Text.trim (utf8 "no") = utf8 "no" := by decide +kernel
  have hpixels : hasPixels (utf8 "5px") = true := by decide +kernel
  have hpadded : Text.IsPadded (utf8 "no") (utf8 "\u3000no\n") :=
    ⟨utf8 "\u3000", utf8 "\n", ⟨[utf8 "\u3000"], by decide +kernel, by decide +kernel⟩,
      ⟨[utf8 "\n"], by decide +kernel, by decide +kernel⟩, by decide +kernel⟩
  refine ⟨_, utf8 "\u3000no\n", rfl, rfl, htrim, hpixels, hpadded, by decide +kernel,
    ((directingWords_work _ .keep _ rfl).1 _).mpr ⟨htrim, hpadded⟩, ?_⟩
  exact ((directingWords_work _ .keep _ rfl).2 htrim false _ [] _ _ _ [.comment (utf8 "x")] rfl
    hpixels hpadded).1 rfl

/-- Settings whose keep comment starts with a space are accepted, and the comment with just that
text does not keep the length before it. -/
theorem spaced_word_ignored :
    ∃ c, { Settings.default with keepComment := utf8 " no" }.toConverter = .ok c ∧
      ¬ utf8 "*/" <:+: c.settings.keepComment ∧ ¬ utf8 "*/" <:+: c.settings.forcePxComment ∧
      hasPixels (utf8 "75px") = true ∧
      Text.IsPadded c.settings.keepComment (utf8 " no") ∧
      c.directiveOf (some (.comment (utf8 " no"))) = .none ∧
      (c.remBlocks ⟨[utf8 "a"], [.declaration (utf8 "width") (utf8 "75px"),
          .comment (utf8 " no")]⟩ false).base =
        some ⟨[utf8 "a"], [.declaration (utf8 "width") (utf8 "1rem"),
          .comment (utf8 " no")]⟩ := by
  refine ⟨_, rfl, by decide +kernel, by decide +kernel, by decide +kernel, ?_, by decide +kernel,
    by decide +kernel⟩
  exact ⟨[], [], ⟨[], by simp, rfl⟩, ⟨[], by simp, rfl⟩, rfl⟩

end PixelRem
