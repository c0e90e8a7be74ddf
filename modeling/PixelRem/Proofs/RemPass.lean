import Mathlib
import PixelRem.Proofs.Pixels
import PixelRem.Proofs.Walk
import PixelRem.Sheet.RemPass

/-!
# Pixel lengths behind the pass to root units

A pixel length that is left in a rule of the converted tree stands in a declaration
that a keep comment followed in the source.  Variants are apart from this, as they are
there for pixel lengths.

The pass works through the items of a block in steps: an item, or a declaration with
the comment that directs it (`exists_step`).  A step leaves at most one item in the
rule, and if that is a declaration with a pixel length the step was a kept declaration.
`pixelsKept_remItems` is the induction over the steps of a block, and the walk carries
it to the tree.
-/

namespace PixelRem

open Css

namespace Converter

/-- The items that are left of a list of items in their own rule. -/
def remItems (c : Converter) (inKeyframes : Bool) (items : List Item) : List Item :=
  ((c.entries items).filter (!·.hasVariants inKeyframes)).map c.remItem

/-- The item that is left of one entry, if any is. -/
def leftOf (c : Converter) (inKeyframes : Bool) (entry : Entry) : List Item :=
  if entry.hasVariants inKeyframes then [] else [c.remItem entry]

end Converter

/-! ## Directives -/

section Directive

variable {c : Converter} {next : Option Item}

theorem directiveOf_ne_none (hdirective : c.directiveOf next ≠ .none) :
    ∃ text, next = some (.comment text) := by
  cases next with
  | none => exact absurd rfl hdirective
  | some item =>
    cases item with
    | declaration => exact absurd rfl hdirective
    | comment text => exact ⟨text, rfl⟩

theorem directiveOf_eq_keep {text : Text}
    (hdirective : c.directiveOf (some (.comment text)) = .keep) :
    Text.trim text = c.settings.keepComment := by
  rw [Converter.directiveOf] at hdirective
  split_ifs at hdirective with hkeep
  exact hkeep

end Directive

/-! ## Items that are left -/

section Items

variable {c : Converter} {inKeyframes : Bool}

theorem remItems_comment (text : Text) (items : List Item) :
    c.remItems inKeyframes (.comment text :: items) =
      .comment text :: c.remItems inKeyframes items := rfl

theorem remItems_plain {property value : Text} (hpixels : hasPixels value = false)
    (items : List Item) :
    c.remItems inKeyframes (.declaration property value :: items) =
      .declaration property value :: c.remItems inKeyframes items := by
  simp [Converter.remItems, Converter.entries, Converter.entriesFrom, hpixels, Entry.hasVariants,
    Converter.remItem]

theorem remItems_length {property value : Text} (hpixels : hasPixels value = true)
    {items : List Item} (hdirective : c.directiveOf items.head? = .none) :
    c.remItems inKeyframes (.declaration property value :: items) =
      c.leftOf inKeyframes (.length property value .none) ++ c.remItems inKeyframes items := by
  simp [Converter.remItems, Converter.entries, Converter.entriesFrom, hpixels, hdirective,
    Converter.leftOf, Entry.hasVariants]

theorem remItems_directed {property value text : Text} (hpixels : hasPixels value = true)
    (hdirective : c.directiveOf (some (.comment text)) ≠ .none) (items : List Item) :
    c.remItems inKeyframes (.declaration property value :: .comment text :: items) =
      c.leftOf inKeyframes (.length property value (c.directiveOf (some (.comment text)))) ++
        c.remItems inKeyframes items := by
  have hskip : (c.directiveOf (some (.comment text)) != .none) = true := by
    simpa using hdirective
  cases hvariants : Entry.hasVariants inKeyframes
      (.length property value (c.directiveOf (some (.comment text)))) <;>
    simp [Converter.remItems, Converter.entries, Converter.entriesFrom, Converter.leftOf, hpixels,
      hskip, hvariants]

theorem length_leftOf_le (entry : Entry) : (c.leftOf inKeyframes entry).length ≤ 1 := by
  rw [Converter.leftOf]
  split_ifs <;> simp

/-- Only a kept declaration is left with a pixel length. -/
theorem mem_leftOf_length {property value property' value' : Text} {directive : Directive}
    (hmem : Item.declaration property' value' ∈
      c.leftOf inKeyframes (.length property value directive))
    (hpixels : hasPixels value' = true) :
    directive = .keep ∧ property' = property ∧ value' = value := by
  rw [Converter.leftOf] at hmem
  split_ifs at hmem
  · exact absurd hmem List.not_mem_nil
  rw [List.mem_singleton] at hmem
  cases directive with
  | keep =>
    simp only [Converter.remItem, Item.declaration.injEq] at hmem
    exact ⟨rfl, hmem.1, hmem.2⟩
  | none =>
    simp only [Converter.remItem, Item.declaration.injEq] at hmem
    rw [hmem.2, hasPixels_convertValue_rem] at hpixels
    exact absurd hpixels (by decide)
  | forcePx =>
    simp only [Converter.remItem, Item.declaration.injEq] at hmem
    rw [hmem.2] at hpixels
    split_ifs at hpixels
    · exact absurd hpixels (by decide)
    · rw [hasPixels_convertValue_rem] at hpixels
      exact absurd hpixels (by decide)

end Items

/-! ## Steps through the items of a block -/

/-- The items of `group` are one step of the pass, with `made` as what it leaves.  What
stands behind the step counts only by its first item. -/
structure IsStep (c : Converter) (inKeyframes : Bool) (group rest made : List Item) : Prop where
  ne_nil : group ≠ []
  made_eq : ∀ more : List Item, more = [] ∨ more.head? = rest.head? →
    c.remItems inKeyframes (group ++ more) = made ++ c.remItems inKeyframes more
  length_le : made.length ≤ 1
  kept : ∀ property value, Item.declaration property value ∈ made → hasPixels value = true →
    ∃ text, group = [.declaration property value, .comment text] ∧
      Text.trim text = c.settings.keepComment

theorem exists_step (c : Converter) (inKeyframes : Bool) {items : List Item} (hne : items ≠ []) :
    ∃ group rest made, items = group ++ rest ∧ IsStep c inKeyframes group rest made := by
  obtain ⟨item, items, rfl⟩ := List.exists_cons_of_ne_nil hne
  cases item with
  | comment text =>
    exact ⟨[.comment text], items, [.comment text], rfl, by simp,
      fun more _ => remItems_comment text more, by simp, by simp⟩
  | declaration property value =>
    by_cases hpixels : hasPixels value = true
    · by_cases hdirective : c.directiveOf items.head? = .none
      · refine ⟨[.declaration property value], items,
          c.leftOf inKeyframes (.length property value .none), rfl, by simp, fun more hmore => ?_,
          length_leftOf_le _, ?_⟩
        · have hnext : c.directiveOf more.head? = .none := by
            rcases hmore with rfl | hhead
            · rfl
            · rw [hhead, hdirective]
          exact remItems_length hpixels hnext
        · intro property' value' hmem hvalue
          exact absurd (mem_leftOf_length hmem hvalue).1 (by decide)
      · obtain ⟨text, hhead⟩ := directiveOf_ne_none hdirective
        obtain ⟨rest, rfl⟩ := List.head?_eq_some_iff.mp hhead
        refine ⟨[.declaration property value, .comment text], rest, _, rfl, by simp,
          fun more _ => remItems_directed hpixels hdirective more, length_leftOf_le _, ?_⟩
        intro property' value' hmem hvalue
        obtain ⟨hkeep, rfl, rfl⟩ := mem_leftOf_length hmem hvalue
        exact ⟨text, rfl, directiveOf_eq_keep hkeep⟩
    · rw [Bool.not_eq_true] at hpixels
      refine ⟨[.declaration property value], items, [.declaration property value], rfl, by simp,
        fun more _ => remItems_plain hpixels more, by simp, ?_⟩
      intro property' value' hmem hvalue
      obtain ⟨rfl, rfl⟩ := Item.declaration.inj (List.mem_singleton.mp hmem)
      rw [hpixels] at hvalue
      exact absurd hvalue (by decide)

/-! ## What is left of a block -/

/-- Every declaration of `left` with a pixel length is one of `items` with a keep comment
directly behind it, and what is left before and behind it comes from what stands before
and behind it. -/
def PixelsKept (c : Converter) (inKeyframes : Bool) (items left : List Item) : Prop :=
  ∀ xs property value ys, left = xs ++ .declaration property value :: ys → hasPixels value = true →
    ∃ before text behind, items = before ++ .declaration property value :: .comment text :: behind ∧
      Text.trim text = c.settings.keepComment ∧
      xs = c.remItems inKeyframes before ∧ ys = c.remItems inKeyframes behind

theorem pixelsKept_remItems (c : Converter) (inKeyframes : Bool) (items : List Item) :
    PixelsKept c inKeyframes items (c.remItems inKeyframes items) := by
  induction hlength : items.length using Nat.strong_induction_on generalizing items with
  | _ n ih =>
    subst hlength
    intro xs property value ys hleft hpixels
    by_cases hne : items = []
    · subst hne
      simp [Converter.remItems, Converter.entries, Converter.entriesFrom] at hleft
    obtain ⟨group, rest, made, rfl, hstep⟩ := exists_step c inKeyframes hne
    rw [hstep.made_eq rest (.inr rfl)] at hleft
    have hshorter : rest.length < (group ++ rest).length := by
      have hpos : 0 < group.length := List.length_pos_iff.mpr hstep.ne_nil
      rw [List.length_append]
      omega
    -- A declaration that is not left by the first step is found by induction in the rest.
    have hrest : ∀ zs, c.remItems inKeyframes rest = zs ++ .declaration property value :: ys →
        ∃ before text behind, group ++ rest =
            before ++ .declaration property value :: .comment text :: behind ∧
          Text.trim text = c.settings.keepComment ∧
          made ++ zs = c.remItems inKeyframes before ∧ ys = c.remItems inKeyframes behind := by
      intro zs hzs
      obtain ⟨before, text, behind, rfl, hkeep, hbefore, hbehind⟩ :=
        ih rest.length hshorter rest rfl zs property value ys hzs hpixels
      refine ⟨group ++ before, text, behind, by simp, hkeep, ?_, hbehind⟩
      rw [hstep.made_eq before, hbefore]
      cases before with
      | nil => exact .inl rfl
      | cons => exact .inr rfl
    rcases made with _ | ⟨item, _ | ⟨next, made⟩⟩
    · exact hrest xs hleft
    · cases xs with
      | nil =>
        simp only [List.singleton_append, List.nil_append, List.cons.injEq] at hleft
        obtain ⟨rfl, rfl⟩ := hleft
        obtain ⟨text, rfl, hkeep⟩ := hstep.kept property value List.mem_cons_self hpixels
        exact ⟨[], text, rest, rfl, hkeep, rfl, rfl⟩
      | cons x xs =>
        simp only [List.cons_append, List.cons.injEq] at hleft
        obtain ⟨rfl, hleft⟩ := hleft
        exact hrest xs hleft
    · have hlong := hstep.length_le
      simp at hlong

/-- The rules that a block may become: at most one with the selectors of the block, in
which only kept declarations have pixel lengths, and then none or one variant for each
ratio. -/
def KeepsPixels (c : Converter) (kind : BlockKind) (block : Block) (inKeyframes : Bool)
    (out : List Rule) : Prop :=
  ∃ base variants : List Block, out = (base ++ variants).map kind.rule ∧ base.length ≤ 1 ∧
    (∀ left ∈ base, left.selectors = block.selectors ∧
      PixelsKept c inKeyframes block.items left.items) ∧
    (variants = [] ∨ variants.map Block.selectors =
      ratios.map fun dpr => block.selectors.map (variantSelector dpr))

theorem variantBlocks_selectors (c : Converter) (selectors : List Text) (forced : List Entry) :
    c.variantBlocks selectors forced = [] ∨ (c.variantBlocks selectors forced).map Block.selectors =
      ratios.map fun dpr => selectors.map (variantSelector dpr) := by
  rw [Converter.variantBlocks]
  split_ifs
  · exact .inl rfl
  · exact .inr rfl

theorem keepsPixels_remBlocks (c : Converter) (kind : BlockKind) (block : Block)
    (inKeyframes : Bool) :
    KeepsPixels c kind block inKeyframes
      ((c.remBlocks block inKeyframes).toList.map kind.rule) := by
  refine ⟨(c.remBlocks block inKeyframes).base.toList, (c.remBlocks block inKeyframes).variants,
    rfl, ?_, ?_, variantBlocks_selectors c _ _⟩
  · cases (c.remBlocks block inKeyframes).base <;> simp
  · intro left hleft
    have hbase : (c.remBlocks block inKeyframes).base =
        if (c.remItems inKeyframes block.items).isEmpty then none
        else some ⟨block.selectors, c.remItems inKeyframes block.items⟩ := rfl
    rw [Option.mem_toList, hbase] at hleft
    split_ifs at hleft
    obtain rfl := Option.some.inj hleft
    exact ⟨rfl, pixelsKept_remItems c inKeyframes block.items⟩

/-- No pixel length leaks through the pass to root units: in the converted tree each rule
that is no variant has pixel lengths only in declarations that a keep comment follows in
the source, and a converted value has none. -/
theorem remRules_keepsPixels (c : Converter) (rules : List Rule) :
    Walked (KeepsPixels c) false rules (c.remRules rules).1 ∧
      ∀ value, hasPixels (c.convertValue .rem value) = false := by
  have hvisit : ∀ kind block inKeyframes s, KeepsPixels c kind block inKeyframes
      ((c.remVisit kind block inKeyframes).run s).1 := fun kind block inKeyframes _ =>
    keepsPixels_remBlocks c kind block inKeyframes
  exact ⟨walked_walkRules hvisit false {} rules, hasPixels_convertValue_rem c⟩

end PixelRem
