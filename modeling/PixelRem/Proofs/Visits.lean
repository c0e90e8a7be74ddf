import Mathlib
import PixelRem.Css.Printer
import PixelRem.Proofs.Walk
import PixelRem.Sheet.PixelPass
import PixelRem.Sheet.RemPass

/-!
# The blocks that a walk visits

`visits` lists the style rules and keyframes of a rule tree in document order, each with
whether the nearest block around it is an animation.  A fact about a walked tree then asks
only for facts about the listed blocks: if each is replaced by rules that print as it does,
the walked tree prints as the tree (`Walked.print_eq`), and what one visit keeps of the state
the whole walk keeps (`walkRules_induction`).  The two passes are walks that replace each
block by what they make of it alone.
-/

namespace PixelRem

namespace Css

/-- A block of a tree, with what a visitor learns about it. -/
structure Visit where
  kind : BlockKind
  block : Block
  inKeyframes : Bool
  deriving DecidableEq, Repr

mutual

/-- The blocks of one rule. -/
def Rule.visits (inKeyframes : Bool) : Rule → List Visit
  | .style block => [⟨.style, block, inKeyframes⟩]
  | .keyframe block => [⟨.keyframe, block, inKeyframes⟩]
  | .media _ rules => Css.visits false rules
  | .keyframes _ _ rules => Css.visits true rules
  | .comment _ => []
  | .other _ => []
  | .unknown _ _ => []

/-- The blocks of a tree in document order. -/
def visits (inKeyframes : Bool) : List Rule → List Visit
  | [] => []
  | rule :: rules => rule.visits inKeyframes ++ visits inKeyframes rules

end

theorem visits_block (kind : BlockKind) (block : Block) (inKeyframes : Bool)
    (rules : List Rule) : visits inKeyframes (kind.rule block :: rules) =
      ⟨kind, block, inKeyframes⟩ :: visits inKeyframes rules := by
  cases kind <;> rfl

theorem visits_leaf {rule : Rule} (hleaf : rule.isLeaf = true) (inKeyframes : Bool)
    (rules : List Rule) : visits inKeyframes (rule :: rules) = visits inKeyframes rules := by
  cases rule with
  | comment | other | unknown => rfl
  | style | keyframe | media | keyframes => exact absurd hleaf Bool.false_ne_true

theorem visits_append (inKeyframes : Bool) (xs ys : List Rule) :
    visits inKeyframes (xs ++ ys) = visits inKeyframes xs ++ visits inKeyframes ys := by
  induction xs with
  | nil => rfl
  | cons rule xs ih => rw [List.cons_append, visits, visits, ih, List.append_assoc]

theorem visits_map_rule (kind : BlockKind) (blocks : List Block) (inKeyframes : Bool) :
    visits inKeyframes (blocks.map kind.rule) =
      blocks.map fun block => ⟨kind, block, inKeyframes⟩ := by
  induction blocks with
  | nil => rfl
  | cons block blocks ih => rw [List.map_cons, visits_block, ih, List.map_cons]

/-! ## Printing a walked tree -/

theorem printParts_cons_congr {depth : Nat} {rule rule' : Rule} {rules rules' : List Rule}
    (hrule : rule'.print depth = rule.print depth)
    (hrules : printParts depth rules' = printParts depth rules) :
    printParts depth (rule' :: rules') = printParts depth (rule :: rules) := by
  rw [printParts, printParts, hrule, hrules]

theorem printParts_append (depth : Nat) (xs ys : List Rule) :
    printParts depth (xs ++ ys) = printParts depth xs ++ printParts depth ys := by
  induction xs with
  | nil => rfl
  | cons rule xs ih =>
    rw [List.cons_append, printParts, printParts, ih]
    split <;> rfl

section Walked

variable {R : BlockKind → Block → Bool → List Rule → Prop} {inKeyframes : Bool}
  {rules out : List Rule}

/-- A tree whose blocks are replaced by rules that print alike prints alike at every level. -/
theorem Walked.printParts_eq (hwalked : Walked R inKeyframes rules out)
    (hprint : ∀ v ∈ visits inKeyframes rules, ∀ first, R v.kind v.block v.inKeyframes first →
      ∀ depth, printParts depth first = printParts depth [v.kind.rule v.block])
    (depth : Nat) : printParts depth out = printParts depth rules := by
  induction hwalked generalizing depth with
  | nil => rfl
  | @block inKeyframes kind block first rules out hfirst _ ih =>
    rw [visits_block, List.forall_mem_cons] at hprint
    obtain ⟨hblock, htail⟩ := hprint
    rw [printParts_append, hblock first hfirst depth, ih htail depth, ← printParts_append,
      List.singleton_append]
  | media _ _ ihinner ih =>
    obtain ⟨hinner, htail⟩ := List.forall_mem_append.mp hprint
    refine printParts_cons_congr ?_ (ih htail depth)
    rw [Rule.print, Rule.print, ihinner hinner (depth + 1)]
  | keyframes _ _ ihinner ih =>
    obtain ⟨hinner, htail⟩ := List.forall_mem_append.mp hprint
    refine printParts_cons_congr ?_ (ih htail depth)
    rw [Rule.print, Rule.print, ihinner hinner (depth + 1)]
  | leaf hleaf _ ih =>
    rw [visits_leaf hleaf] at hprint
    exact printParts_cons_congr rfl (ih hprint depth)

theorem Walked.print_eq (hwalked : Walked R false rules out)
    (hprint : ∀ v ∈ visits false rules, ∀ first, R v.kind v.block v.inKeyframes first →
      ∀ depth, printParts depth first = printParts depth [v.kind.rule v.block]) :
    print out = print rules := by
  rw [print, print, hwalked.printParts_eq hprint 0]

/-- If every block is replaced by blocks of its own kind, these are the blocks of the new tree,
in the place of the old one. -/
theorem Walked.visits_eq {blocks : Visit → List Block}
    (hwalked : Walked R inKeyframes rules out)
    (hblocks : ∀ kind block inKeyframes first, R kind block inKeyframes first →
      first = (blocks ⟨kind, block, inKeyframes⟩).map kind.rule) :
    visits inKeyframes out = (visits inKeyframes rules).flatMap fun v =>
      (blocks v).map fun block => ⟨v.kind, block, v.inKeyframes⟩ := by
  induction hwalked with
  | nil => rfl
  | @block inKeyframes kind block first rules out hfirst _ ih =>
    rw [hblocks kind block inKeyframes first hfirst, visits_append, visits_map_rule, visits_block,
      List.flatMap_cons, ih]
  | media _ _ ihinner ih =>
    rw [visits, visits, Rule.visits, Rule.visits, List.flatMap_append, ihinner, ih]
  | keyframes _ _ ihinner ih =>
    rw [visits, visits, Rule.visits, Rule.visits, List.flatMap_append, ihinner, ih]
  | leaf hleaf _ ih => rw [visits_leaf hleaf, visits_leaf hleaf, ih]

end Walked

/-! ## The state behind a walk -/

section State

variable {σ : Type} {visit : BlockKind → Block → Bool → StateM σ (List Rule)}

/-- The state that a visitor leaves behind a block. -/
def Visit.after (visit : BlockKind → Block → Bool → StateM σ (List Rule)) (s : σ) (v : Visit) : σ :=
  ((visit v.kind v.block v.inKeyframes).run s).2

mutual

theorem walkRule_run_snd (inKeyframes : Bool) (s : σ) : (rule : Rule) →
    ((walkRule visit inKeyframes rule).run s).2 =
      (rule.visits inKeyframes).foldl (Visit.after visit) s
  | .style block => by
    rw [walkRule]
    rfl
  | .keyframe block => by
    rw [walkRule]
    rfl
  | .media pre inner => by
    rw [walkRule]
    exact walkRules_run_snd false s inner
  | .keyframes vendor name inner => by
    rw [walkRule]
    exact walkRules_run_snd true s inner
  | .comment text => by
    rw [walkRule]
    rfl
  | .other text => by
    rw [walkRule]
    rfl
  | .unknown code text => by
    rw [walkRule]
    rfl

/-- A walk hands its state from block to block in document order. -/
theorem walkRules_run_snd (inKeyframes : Bool) (s : σ) : (rules : List Rule) →
    ((walkRules visit inKeyframes rules).run s).2 =
      (visits inKeyframes rules).foldl (Visit.after visit) s
  | [] => by
    rw [walkRules]
    rfl
  | rule :: rules => by
    rw [walkRules, visits, List.foldl_append, ← walkRule_run_snd inKeyframes s rule,
      ← walkRules_run_snd inKeyframes _ rules]
    rfl

end

/-- What holds of no block and the first state, and is kept by one more visit, holds of all
blocks and the last state. -/
theorem walkRules_induction {P : List Visit → σ → Prop} {s : σ} (hstart : P [] s)
    (hvisit : ∀ before v s, P before s → P (before ++ [v]) (Visit.after visit s v))
    (inKeyframes : Bool) (rules : List Rule) :
    P (visits inKeyframes rules) ((walkRules visit inKeyframes rules).run s).2 := by
  rw [walkRules_run_snd]
  induction visits inKeyframes rules using List.reverseRecOn with
  | nil => exact hstart
  | append_singleton before v ih =>
    rw [List.foldl_append]
    exact hvisit before v _ ih

end State

end Css

/-! ## The passes as walks -/

section Passes

open Css

/-- The pass to root units replaces each block by what is left of it and its variants. -/
theorem walked_remRules (c : Converter) (rules : List Rule) :
    Walked (fun kind block inKeyframes first =>
        first = (c.remBlocks block inKeyframes).toList.map kind.rule)
      false rules (c.remRules rules).1 := by
  rw [Converter.remRules]
  apply walked_walkRules
  intro kind block inKeyframes s
  rfl

/-- The pass to a ratio scales the items of each block in its place. -/
theorem walked_scaleRules (c : Converter) (dpr : Decimal) (rules : List Rule) :
    Walked (fun kind block _ first =>
        first = [kind.rule ⟨block.selectors, (c.scaleItems dpr block.items).1⟩])
      false rules (c.scaleRules dpr rules).1 := by
  rw [Converter.scaleRules]
  apply walked_walkRules
  intro kind block inKeyframes s
  rfl

end Passes

end PixelRem
