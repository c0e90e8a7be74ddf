import Mathlib
import PixelRem.Proofs.Offsets
import PixelRem.Proofs.PixelFree
import PixelRem.Proofs.Reprint

/-!
# Stylesheets one behind the other

A stylesheet whose last token is a semicolon or a closing brace leaves nothing open: its last
token is cut the same way whatever stands behind it, and its last rule has what ends it.  So a
text behind it has the tokens it has alone, moved by the length of the stylesheet, and is read
from the top level (`parseTokens_append`).

A walk whose visits do not read the counts gives the rules of a list part by part, and the
printer joins the texts of the parts that are not empty (`print_append`).
-/

namespace PixelRem

namespace Css

/-! ## The seam -/

/-- A stylesheet that ends with a semicolon or a closing brace is complete. -/
theorem Sheet.ruleSeq {demand : Demand} {ts : List Token} {last : Token} {rules : List Rule}
    (hsheet : Sheet demand (ts ++ [last]) rules)
    (hlast : last.kind = .rightBrace ∨ last.kind = .semicolon) :
    RuleSeq demand (ts ++ [last]) rules := by
  generalize htokens : ts ++ [last] = us at hsheet
  cases hsheet with
  | complete entries => exact entries
  | @unended t before raw rules entries hname hraw =>
    have hmem : last ∈ t :: raw := by
      have hend := congrArg List.getLast? htokens
      rw [List.getLast?_concat, List.getLast?_append_of_ne_nil _ (List.cons_ne_nil t raw)] at hend
      exact List.mem_of_getLast? hend.symm
    rcases List.mem_cons.mp hmem with rfl | hmem
    · rcases hlast with hlast | hlast <;> exact absurd (hname.1.symm.trans hlast) (by decide)
    · obtain ⟨hsemicolon, -, hclose⟩ := hraw last hmem
      exact absurd hlast (not_or.mpr ⟨hclose, hsemicolon⟩)

theorem cut_tokenize_append {a : Text} {ts : List Token} {last : Token}
    (htokens : tokenize a = ts ++ [last])
    (hlast : last.kind = .rightBrace ∨ last.kind = .semicolon) (b : Text) :
    Cut (tokenize a) b := by
  have hcut := cut_tokenize a
  rw [htokens] at hcut ⊢
  refine cut_mark hcut ?_ b
  rcases hlast with hlast | hlast <;> rw [hlast] <;> decide

/-- The rules of the first text go before those of the second, and a fault of the second is
moved by the length of the first. -/
theorem parseTokens_append {demand : Demand} {a b : Text} {rules : List Rule}
    (hcut : Cut (tokenize a) b) (hrules : RuleSeq demand (tokenize a) rules) :
    parseTokens (a ++ b).length (tokenize (a ++ b)) =
      moved (· + a.length) (rules ++ ·) (parseTokens b.length (tokenize b)) := by
  have hbefore (eof : Nat) (us : List Token) : parseTokens eof (tokenize a ++ us) =
      (parseTokens eof us).map (rules ++ ·) := by
    rw [parseTokens_eq, parseTokens_eq, readRules_append hrules]
    cases readRules eof none us <;> rfl
  rw [tokenize_append hcut, hbefore, List.length_append, Nat.add_comm a.length,
    parseTokens_move (· + a.length)]
  cases parseTokens b.length (tokenize b) <;> rfl

/-! ## Printing -/

/-- Two printed stylesheets as one: parted by an empty line, if neither is empty. -/
def joinSheets (x y : Text) : Text :=
  if x = [] then y else if y = [] then x else x ++ utf8 "\n\n" ++ y

theorem ne_nil_of_mem_printParts {depth : Nat} {rules : List Rule} {text : Text}
    (hmem : text ∈ printParts depth rules) : text ≠ [] := by
  induction rules with
  | nil => exact absurd hmem List.not_mem_nil
  | cons rule rules ih =>
    rw [printParts] at hmem
    split at hmem
    · exact ih hmem
    · rename_i hne
      rcases List.mem_cons.mp hmem with rfl | hmem
      · exact hne
      · exact ih hmem

theorem intercalate_append {sep : Text} {xs ys : List Text} (hxs : xs ≠ []) (hys : ys ≠ []) :
    List.intercalate sep (xs ++ ys) =
      List.intercalate sep xs ++ sep ++ List.intercalate sep ys := by
  induction xs with
  | nil => exact absurd rfl hxs
  | cons x xs ih =>
    by_cases htail : xs = []
    · subst htail
      rw [List.singleton_append, List.intercalate_cons_of_ne_nil hys, List.intercalate_singleton]
    · have hne : xs ++ ys ≠ [] := List.append_ne_nil_of_left_ne_nil htail ys
      rw [List.cons_append, List.intercalate_cons_of_ne_nil hne,
        List.intercalate_cons_of_ne_nil htail, ih htail]
      simp only [List.append_assoc]

theorem print_eq_nil_iff (rules : List Rule) : print rules = [] ↔ printParts 0 rules = [] := by
  rw [print]
  constructor
  · intro hprint
    cases hparts : printParts 0 rules with
    | nil => rfl
    | cons text parts =>
      have hne : text ≠ [] := ne_nil_of_mem_printParts (hparts ▸ List.mem_cons_self)
      rw [hparts, intercalate_cons] at hprint
      exact absurd (List.append_eq_nil_iff.mp hprint).1 hne
  · intro hparts
    rw [hparts]
    rfl

/-- A list of rules prints as its parts, joined. -/
theorem print_append (xs ys : List Rule) : print (xs ++ ys) = joinSheets (print xs) (print ys) := by
  rw [joinSheets]
  split_ifs with hxs hys
  · rw [print, printParts_append, (print_eq_nil_iff xs).mp hxs, List.nil_append, print]
  · rw [print, printParts_append, (print_eq_nil_iff ys).mp hys, List.append_nil, print]
  · rw [print, printParts_append, intercalate_append (fun h => hxs ((print_eq_nil_iff xs).mpr h))
      (fun h => hys ((print_eq_nil_iff ys).mpr h)), print, print]

end Css

open Css

/-! ## The passes -/

section Passes

variable (c : Converter) (xs ys : List Rule)

theorem remRules_append : (c.remRules (xs ++ ys)).1 = (c.remRules xs).1 ++ (c.remRules ys).1 := by
  rw [Converter.remRules, Converter.remRules, Converter.remRules]
  apply walkRules_run_append
  intro kind block inKeyframes s s'
  rfl

theorem scaleRules_append (dpr : Decimal) :
    (c.scaleRules dpr (xs ++ ys)).1 = (c.scaleRules dpr xs).1 ++ (c.scaleRules dpr ys).1 := by
  rw [Converter.scaleRules, Converter.scaleRules, Converter.scaleRules]
  apply walkRules_run_append
  intro kind block inKeyframes s s'
  rfl

end Passes

/-! ## The sheets -/

section Sheets

variable {c : Converter} {css : Text} {rules : List Rule}

theorem generateRem_of_parse (hparse : parse css = .ok rules) :
    (c.generateRem css).map RemSheet.css = .ok (print (c.remRules rules).1) := by
  rw [Converter.generateRem, hparse]
  rfl

theorem generatePixel_of_parse {dpr : Binary64} {ratio : Decimal}
    (hratio : (if dpr.isZero then .ofNat defaultRatio else dpr).positive? = some ratio)
    (hparse : parse css = .ok rules) :
    (c.generatePixel css dpr).map PixelSheet.css = .ok (print (c.scaleRules ratio rules).1) := by
  simp only [Converter.generatePixel, hratio, hparse]
  rfl

end Sheets

/-- Behind a stylesheet that ends with a semicolon or a closing brace, another has its own
rules, sheets that are joined to those of the first, or its own fault at the place where it
now stands. -/
theorem sheets_compose (a b : Text) (rules : List Rule) (last : Token)
    (hparse : parse a = .ok rules) (hend : (tokenize a).getLast? = some last)
    (hlast : last.kind = .rightBrace ∨ last.kind = .semicolon) :
    (∀ others, parse b = .ok others →
      parse (a ++ b) = .ok (rules ++ others) ∧
      (∀ c : Converter, ∃ x y, (c.generateRem a).map RemSheet.css = .ok x ∧
        (c.generateRem b).map RemSheet.css = .ok y ∧
        (c.generateRem (a ++ b)).map RemSheet.css = .ok (joinSheets x y)) ∧
      ∀ (c : Converter) (dpr : Binary64), dpr.isZero = true ∨ dpr.positive?.isSome = true →
        ∃ x y, (c.generatePixel a dpr).map PixelSheet.css = .ok x ∧
          (c.generatePixel b dpr).map PixelSheet.css = .ok y ∧
          (c.generatePixel (a ++ b) dpr).map PixelSheet.css = .ok (joinSheets x y)) ∧
    ∀ e, parse b = .error e →
      ∃ fault, parseTokens b.length (tokenize b) = .error fault ∧
        e = ⟨positionOf b fault.offset, fault.problem⟩ ∧
        parse (a ++ b) = .error ⟨positionOf (a ++ b) (a.length + fault.offset), fault.problem⟩ := by
  obtain ⟨ts, htokens⟩ := List.getLast?_eq_some_iff.mp hend
  have hrules : RuleSeq anyRun (tokenize a) rules := by
    rw [parse_eq_ok, parseTokens_eq_ok_iff] at hparse
    rw [htokens] at hparse ⊢
    exact hparse.ruleSeq hlast
  have happend := parseTokens_append (cut_tokenize_append htokens hlast b) hrules
  constructor
  · intro others hothers
    have hboth : parse (a ++ b) = .ok (rules ++ others) := by
      rw [parse_eq_ok] at hothers ⊢
      rw [happend, hothers, moved_ok]
    refine ⟨hboth, ?_, ?_⟩
    · intro c
      refine ⟨_, _, generateRem_of_parse hparse, generateRem_of_parse hothers, ?_⟩
      rw [generateRem_of_parse hboth, remRules_append, print_append]
    · intro c dpr hdpr
      obtain ⟨ratio, hratio⟩ := exists_ratio hdpr
      refine ⟨_, _, generatePixel_of_parse hratio hparse, generatePixel_of_parse hratio hothers, ?_⟩
      rw [generatePixel_of_parse hratio hboth, scaleRules_append, print_append]
  · intro e herror
    rw [parse] at herror
    cases hb : parseTokens b.length (tokenize b) with
    | ok others =>
      rw [hb] at herror
      cases herror
    | error fault =>
      rw [hb] at herror
      refine ⟨fault, rfl, (Except.error.inj herror).symm, ?_⟩
      rw [parse, happend, hb, moved_error, Nat.add_comm a.length]
      rfl

/-- The tokens of a rule with one length. -/
theorem tokenize_lengthRule : tokenize (utf8 "a\x7bb:1px\x7d") =
    ([⟨.ident, utf8 "a", 0⟩] ++ ⟨.leftBrace, [0x7B], 1⟩ ::
      (([⟨.ident, utf8 "b", 2⟩] ++ ⟨.colon, utf8 ":", 3⟩ :: [⟨.dimension, utf8 "1px", 4⟩]) ++
        [⟨.rightBrace, [0x7D], 7⟩])) ++ [] := by
  decide +kernel

theorem parse_lengthRule : parse (utf8 "a\x7bb:1px\x7d") =
    .ok [.style ⟨[utf8 "a"], [.declaration (utf8 "b") (utf8 "1px")]⟩] := by
  have hvalue : Token.IsWord ⟨.dimension, utf8 "1px", 4⟩ := by decide
  exact parse_declaration tokenize_lengthRule (by decide) (by decide) hvalue.isValue rfl rfl rfl

/-- A rule behind itself, and a closing brace behind it that has no partner. -/
theorem sheets_compose_rule :
    ∃ c a rules last, Settings.default.toConverter = .ok c ∧ parse a = .ok rules ∧
      (tokenize a).getLast? = some last ∧ last.kind = .rightBrace ∧
      parse (a ++ a) = .ok (rules ++ rules) ∧ (Binary64.ofNat 3).positive?.isSome = true ∧
      (∃ x y, (c.generatePixel a (.ofNat 3)).map PixelSheet.css = .ok x ∧
        (c.generatePixel a (.ofNat 3)).map PixelSheet.css = .ok y ∧
        (c.generatePixel (a ++ a) (.ofNat 3)).map PixelSheet.css = .ok (joinSheets x y)) ∧
      parse (utf8 "\x7d") = .error ⟨positionOf (utf8 "\x7d") 0, .unexpectedClose⟩ ∧
      parse (a ++ utf8 "\x7d") =
        .error ⟨positionOf (a ++ utf8 "\x7d") (a.length + 0), .unexpectedClose⟩ := by
  have hend : (tokenize (utf8 "a\x7bb:1px\x7d")).getLast? = some ⟨.rightBrace, [0x7D], 7⟩ := by
    rw [tokenize_lengthRule]
    rfl
  have hfault : parseTokens (utf8 "\x7d").length (tokenize (utf8 "\x7d")) =
      .error ⟨0, .unexpectedClose⟩ := by
    have hclose : tokenize (utf8 "\x7d") = [⟨.rightBrace, [0x7D], 0⟩] := by decide +kernel
    rw [hclose, parseTokens_eq, readRules_close_none rfl]
    rfl
  have herror : parse (utf8 "\x7d") =
      .error ⟨positionOf (utf8 "\x7d") 0, .unexpectedClose⟩ := by
    rw [parse, hfault]
    rfl
  have hratio : (Binary64.ofNat 3).positive?.isSome = true := by decide +kernel
  have hcompose (b : Text) := sheets_compose _ b _ _ parse_lengthRule hend (.inl rfl)
  obtain ⟨htwice, -, hpixel⟩ := (hcompose _).1 _ parse_lengthRule
  obtain ⟨fault, hfault', -, hboth⟩ := (hcompose (utf8 "\x7d")).2 _ herror
  rw [hfault, Except.error.injEq] at hfault'
  subst hfault'
  exact ⟨_, _, _, _, rfl, parse_lengthRule, hend, rfl, htwice, hratio, hpixel _ _ (.inr hratio),
    herror, hboth⟩

end PixelRem
