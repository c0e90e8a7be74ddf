import Mathlib
import PixelRem.Proofs.Pixels
import PixelRem.Proofs.ReadBack
import PixelRem.Proofs.Visits

/-!
# Splitting selector lists

A token list is split at the commas outside all brackets.  Splitting loses nothing and is
stable, and so is putting parts together again:

* `weave` puts commas between parts, and `commasFrom` are the commas that a list is split at.
  Weaving what was split gives the list back (`weave_splitTopLevel`).
* No part holds a comma outside its own brackets (`Parted.guards`), so a part is split into
  itself alone.
* A part that also ends outside all brackets leaves the depth of what follows alone.  Woven
  parts of this kind are split where they were woven (`splitTopLevel_weave`).  All selectors
  of a rule are of this kind, because the opening brace of its block stands outside all
  brackets (`Parted.closed`), and the mark of a variant keeps them so.
-/

namespace PixelRem.Css

/-! ## Commas between parts -/

/-- Parts with commas between them. -/
def weave (commas : List Token) : List (List Token) → List Token
  | [] => []
  | part :: parts => part ++ (List.zipWith List.cons commas parts).flatten

@[simp] theorem weave_singleton (commas part : List Token) : weave commas [part] = part := by
  simp [weave]

@[simp] theorem weave_cons_cons (comma : Token) (commas part next : List Token)
    (parts : List (List Token)) :
    weave (comma :: commas) (part :: next :: parts) =
      part ++ comma :: weave commas (next :: parts) := by
  simp [weave]

/-- The commas that a list is split at, from a bracket depth on. -/
def commasFrom : (depth : Nat) → List Token → List Token
  | _, [] => []
  | depth, t :: ts =>
    let commas := commasFrom (t.kind.depthAfter depth) ts
    if t.kind = .comma ∧ depth = 0 then t :: commas else commas

theorem kind_of_mem_commasFrom {depth : Nat} {ts : List Token} {t : Token}
    (ht : t ∈ commasFrom depth ts) : t.kind = .comma := by
  induction ts generalizing depth with
  | nil => exact absurd ht List.not_mem_nil
  | cons u ts ih =>
    rw [commasFrom] at ht
    split_ifs at ht with hcut
    · rcases List.mem_cons.mp ht with rfl | ht
      · exact hcut.1
      · exact ih ht
    · exact ih ht

theorem length_commasFrom (depth : Nat) (ts : List Token) :
    (commasFrom depth ts).length = (splitFrom depth ts).2.length := by
  induction ts generalizing depth with
  | nil => rfl
  | cons t ts ih =>
    rw [commasFrom, splitFrom]
    split_ifs
    · rw [List.length_cons, ih]
      rfl
    · exact ih _

theorem weave_splitFrom (depth : Nat) (ts : List Token) :
    weave (commasFrom depth ts) ((splitFrom depth ts).1 :: (splitFrom depth ts).2) = ts := by
  induction ts generalizing depth with
  | nil => rfl
  | cons t ts ih =>
    rw [commasFrom, splitFrom]
    split_ifs
    · rw [weave_cons_cons, ih, List.nil_append]
    · exact congrArg (t :: ·) (ih _)

/-- The parts of a list with the commas it was split at are the list. -/
theorem weave_splitTopLevel (ts : List Token) :
    weave (commasFrom 0 ts) (splitTopLevel ts) = ts :=
  weave_splitFrom 0 ts

/-! ## What the parts hold -/

theorem Parted.guards {ts : List Token} {parts : List (List Token)} (hparts : Parted ts parts) :
    ∀ part ∈ parts, Guards [.comma] 0 part := by
  induction hparts with
  | last hpart => exact List.forall_mem_singleton.mpr hpart
  | comma hpart _ _ _ ih => exact List.forall_mem_cons.mpr ⟨hpart, ih⟩

/-- In a list that ends outside all brackets every part does. -/
theorem Parted.closed {ts : List Token} {parts : List (List Token)} (hparts : Parted ts parts)
    (hclosed : depthBehind 0 ts = 0) : ∀ part ∈ parts, depthBehind 0 part = 0 := by
  induction hparts with
  | last => exact List.forall_mem_singleton.mpr hclosed
  | comma _ hpart hcomma _ ih =>
    rw [depthBehind_append, hpart, depthBehind_cons, hcomma] at hclosed
    exact List.forall_mem_cons.mpr ⟨hpart, ih hclosed⟩

theorem splitTopLevel_of_mem {part ts : List Token} (hpart : part ∈ splitTopLevel ts) :
    splitTopLevel part = [part] :=
  (Parted.last ((parted_splitTopLevel ts).guards part hpart)).splitTopLevel_eq

/-! ## Parts that can be woven -/

/-- A run that neither is split nor changes the depth of what follows. -/
structure StandsAlone (part : List Token) : Prop where
  guards : Guards [.comma] 0 part
  closed : depthBehind 0 part = 0

theorem StandsAlone.append {us part : List Token} (hus : StandsAlone us)
    (hpart : StandsAlone part) : StandsAlone (us ++ part) where
  guards := guards_append.mpr ⟨hus.guards, by rw [hus.closed]; exact hpart.guards⟩
  closed := by rw [depthBehind_append, hus.closed, hpart.closed]

theorem splitTopLevel_comma {part : List Token} {comma : Token} (hpart : StandsAlone part)
    (hcomma : comma.kind = .comma) (rest : List Token) :
    splitTopLevel (part ++ comma :: rest) = part :: splitTopLevel rest :=
  (Parted.comma hpart.guards hpart.closed hcomma (parted_splitTopLevel rest)).splitTopLevel_eq

/-- Woven parts are split where they were woven. -/
theorem splitTopLevel_weave {parts : List (List Token)} {commas : List Token}
    (hparts : ∀ part ∈ parts, StandsAlone part) (hcommas : ∀ t ∈ commas, t.kind = .comma)
    (hlength : commas.length + 1 = parts.length) :
    splitTopLevel (weave commas parts) = parts := by
  induction commas generalizing parts with
  | nil =>
    obtain ⟨part, rfl⟩ := List.length_eq_one_iff.mp hlength.symm
    rw [weave_singleton]
    exact (Parted.last (hparts part List.mem_cons_self).guards).splitTopLevel_eq
  | cons comma commas ih =>
    obtain _ | ⟨part, _ | ⟨next, parts⟩⟩ := parts
    · simp at hlength
    · simp at hlength
    rw [weave_cons_cons, splitTopLevel_comma (hparts part List.mem_cons_self)
      (hcommas comma List.mem_cons_self)]
    rw [ih (fun other hother => hparts other (List.mem_cons_of_mem part hother))
      (fun t ht => hcommas t (List.mem_cons_of_mem comma ht)) (by simpa using hlength)]

theorem standsAlone_membersOf {ts : List Token} (hclosed : depthBehind 0 ts = 0) :
    ∀ part ∈ membersOf ts, StandsAlone part := by
  intro part hpart
  have hparts := parted_splitTopLevel ts
  have hmem := (List.mem_filter.mp hpart).1
  exact ⟨hparts.guards part hmem, hparts.closed hclosed part hmem⟩

theorem depthBehind_withoutComments (depth : Nat) (ts : List Token) :
    depthBehind depth (withoutComments ts) = depthBehind depth ts := by
  induction ts generalizing depth with
  | nil => rfl
  | cons t ts ih =>
    rw [withoutComments_cons]
    split_ifs with hcomment
    · rw [ih, depthBehind_cons, hcomment]
      rfl
    · rw [depthBehind_cons, depthBehind_cons, ih]

/-! ## The mark of a variant -/

/-- The tokens of what a variant puts before a selector. -/
def markOf (dpr : Nat) : List Token :=
  tokenize (variantSelector dpr [])

/-- The tokens of a mark, not yet placed. -/
def markTokens (dpr : Nat) : List Token :=
  [⟨.leftBracket, utf8 "[", 0⟩, ⟨.ident, utf8 "data-dpr", 0⟩, ⟨.delim, utf8 "=", 0⟩,
    ⟨.string, ascii '"' :: (Text.ofNat dpr ++ [ascii '"']), 0⟩, ⟨.rightBracket, utf8 "]", 0⟩,
    ⟨.whitespace, utf8 " ", 0⟩]

theorem plain_of_isDigit :
    ∀ b : UInt8, Byte.isDigit b = true →
      Byte.isNewline b = false ∧ b ≠ ascii '"' ∧ b ≠ ascii '\\' := by
  decide +kernel

theorem stringRunFrom_digits {digits : Text} (hdigits : ∀ b ∈ digits, Byte.isDigit b = true)
    (rest : Text) :
    stringRunFrom (ascii '"') 0 (digits ++ ascii '"' :: rest) = (true, digits.length + 1) := by
  induction digits with
  | nil => rfl
  | cons b digits ih =>
    obtain ⟨hb, htail⟩ := List.forall_mem_cons.mp hdigits
    obtain ⟨hnewline, hquote, hescape⟩ := plain_of_isDigit b hb
    rw [List.cons_append, stringRunFrom, if_neg (by simp [hnewline]), if_neg hquote,
      if_neg hescape, ih htail]
    rfl

theorem cut_markTokens (dpr : Nat) : Cut (markTokens dpr) [] := by
  refine ⟨⟨_, _, rfl, rfl⟩, ⟨_, _, rfl, rfl⟩, ⟨_, _, rfl, rfl⟩, ⟨_, _, rfl, ?_⟩, ⟨_, _, rfl, rfl⟩,
    ⟨_, _, rfl, rfl⟩, trivial⟩
  have hrun := stringRunFrom_digits (isDigit_ofNat dpr) (utf8 "] ")
  have hscan (t : Text) : scan (ascii '"') t =
      (if (stringRunFrom (ascii '"') 0 t).1 then .string else .badString,
        1 + (stringRunFrom (ascii '"') 0 t).2) := rfl
  rw [hscan, List.append_assoc]
  show ((if (stringRunFrom (ascii '"') 0 (Text.ofNat dpr ++ ascii '"' :: utf8 "] ")).1 then
    TokenKind.string else .badString),
      1 + (stringRunFrom (ascii '"') 0 (Text.ofNat dpr ++ ascii '"' :: utf8 "] ")).2) = _
  rw [hrun]
  simp [Nat.add_comm]

theorem markOf_eq (dpr : Nat) : markOf dpr = place 0 (markTokens dpr) := by
  have htext : variantSelector dpr [] = textOf (markTokens dpr) := by
    simp only [variantSelector, markTokens, textOf_cons, textOf_nil, List.append_nil,
      List.cons_append, List.append_assoc]
    rfl
  rw [markOf, htext, tokenize_cut (cut_markTokens dpr)]

theorem standsAlone_markOf (dpr : Nat) : StandsAlone (markOf dpr) := by
  rw [markOf_eq]
  refine ⟨(guards_place ..).mpr ?_, (depthBehind_place ..).trans rfl⟩
  simp [markTokens, guards_cons]

/-- Behind text and a blank, a run with a text starts as it does alone. -/
theorem joinFrom_started {ts : List Token} {blank : Bool} (hne : joinFrom false blank ts ≠ []) :
    joinFrom true true ts = 0x20 :: joinFrom false blank ts := by
  induction ts generalizing blank with
  | nil => exact absurd rfl hne
  | cons t ts ih =>
    rw [joinFrom] at hne ⊢
    rw [joinFrom]
    cases hkind : t.kind with
    | comment =>
      rw [hkind] at hne
      exact ih hne
    | whitespace =>
      rw [hkind] at hne
      exact ih hne
    | _ => rfl

/-- A mark and a selector behind it are the selector of a variant. -/
theorem joinTokens_markOf {part : List Token} (dpr : Nat) (hne : joinTokens part ≠ []) :
    joinTokens (markOf dpr ++ part) = variantSelector dpr (joinTokens part) := by
  rw [joinTokens] at hne
  rw [markOf_eq, joinTokens, joinTokens]
  simp only [markTokens, place, List.cons_append, List.nil_append, joinFrom, Bool.and_false,
    Bool.false_eq_true, if_false, joinFrom_started hne, variantSelector,
    List.append_assoc]
  rfl

/-! ## Selectors of a stylesheet -/

section Preludes

variable {demand : Demand} {ts : List Token} {rules : List Rule} {v : Visit}

/-- The selectors of a block come from a run of the list that is a prelude. -/
def FromPrelude (ts : List Token) (block : Block) : Prop :=
  ∃ pre, pre <:+: ts ∧ IsPrelude pre ∧ block.selectors = selectorsOf pre

theorem FromPrelude.mono {block : Block} {us : List Token} (hblock : FromPrelude us block)
    (hus : us <:+: ts) : FromPrelude ts block := by
  obtain ⟨pre, hpre, hrest⟩ := hblock
  exact ⟨pre, hpre.trans hus, hrest⟩

theorem Qualifies.fromPrelude {block : Block} (hblock : Qualifies demand ts block) :
    FromPrelude ts block := by
  obtain ⟨-, hpre, hparts, -, -, -, -, -⟩ := hblock
  exact ⟨_, List.infix_append' [] _ _, hpre, hparts.textsOf_eq⟩

theorem KeyframeSeq.fromPrelude (hrules : KeyframeSeq demand ts rules) {inKeyframes : Bool}
    (hv : v ∈ visits inKeyframes rules) : FromPrelude ts v.block := by
  induction hrules with
  | nil => exact absurd hv List.not_mem_nil
  | skip _ _ ih => exact (ih hv).mono (List.suffix_cons _ _).isInfix
  | comment _ _ ih => exact (ih hv).mono (List.suffix_cons _ _).isInfix
  | keyframe first _ ih =>
    rcases List.mem_append.mp hv with hv | hv
    · obtain rfl := List.mem_singleton.mp hv
      exact first.fromPrelude.mono (List.prefix_append _ _).isInfix
    · exact (ih hv).mono (List.suffix_append _ _).isInfix

theorem RuleSeq.fromPrelude (hrules : RuleSeq demand ts rules) {inKeyframes : Bool}
    (hv : v ∈ visits inKeyframes rules) : FromPrelude ts v.block := by
  induction hrules generalizing inKeyframes with
  | nil => exact absurd hv List.not_mem_nil
  | skip _ _ ih => exact (ih hv).mono (List.suffix_cons _ _).isInfix
  | comment _ _ ih => exact (ih hv).mono (List.suffix_cons _ _).isInfix
  | @media t opening closing pre body ts inner rules _ _ _ _ _ _ _ ihblock ihtail =>
    rcases List.mem_append.mp hv with hv | hv
    · exact (ihblock hv).mono ⟨t :: (pre ++ [opening]), closing :: ts, by simp⟩
    · exact (ihtail hv).mono ⟨t :: (pre ++ opening :: (body ++ [closing])), [], by simp⟩
  | @keyframes t opening closing pre body ts inner rules _ _ _ _ hframes _ _ ih =>
    rcases List.mem_append.mp hv with hv | hv
    · exact (hframes.fromPrelude hv).mono ⟨t :: (pre ++ [opening]), closing :: ts, by simp⟩
    · exact (ih hv).mono ⟨t :: (pre ++ opening :: (body ++ [closing])), [], by simp⟩
  | @other t raw ts rules _ _ _ ih => exact (ih hv).mono ⟨t :: raw, [], by simp⟩
  | style first _ _ ih =>
    rcases List.mem_append.mp hv with hv | hv
    · obtain rfl := List.mem_singleton.mp hv
      exact first.fromPrelude.mono (List.prefix_append _ _).isInfix
    · exact (ih hv).mono (List.suffix_append _ _).isInfix

theorem Sheet.fromPrelude (hsheet : Sheet demand ts rules) (hv : v ∈ visits false rules) :
    FromPrelude ts v.block := by
  cases hsheet with
  | complete entries => exact entries.fromPrelude hv
  | unended entries _ _ =>
    rw [visits_append] at hv
    rcases List.mem_append.mp hv with hv | hv
    · exact (entries.fromPrelude hv).mono (List.prefix_append _ _).isInfix
    · exact absurd hv List.not_mem_nil

end Preludes

theorem selectors_of_mem_variants {c : Converter} {block variant : Block} {inKeyframes : Bool}
    (hvariant : variant ∈ (c.remBlocks block inKeyframes).variants) :
    ∃ dpr ∈ ratios, variant.selectors = block.selectors.map (variantSelector dpr) := by
  change variant ∈ c.variantBlocks _ _ at hvariant
  rw [Converter.variantBlocks] at hvariant
  split_ifs at hvariant
  · exact absurd hvariant List.not_mem_nil
  · obtain ⟨dpr, hdpr, rfl⟩ := List.mem_map.mp hvariant
    exact ⟨dpr, hdpr, rfl⟩

theorem variantSelector_ne_nil (dpr : Nat) (selector : Text) : variantSelector dpr selector ≠ [] :=
  List.cons_ne_nil (ascii '[') _

theorem map_joinTokens_markOf {parts : List (List Token)} (dpr : Nat)
    (hparts : ∀ part ∈ parts, joinTokens part ≠ []) :
    (parts.map (markOf dpr ++ ·)).map joinTokens =
      (parts.map joinTokens).map (variantSelector dpr) := by
  rw [List.map_map, List.map_map]
  exact List.map_congr_left fun part hpart => joinTokens_markOf dpr (hparts part hpart)

/-- Splitting loses nothing but the commas it splits at, and every part is split into itself
alone.  The selectors of a rule are the texts of a list of token runs; with commas between
them, plain or each behind the mark of a ratio, they are split into the same runs again, and
the selectors of a variant are those of its rule with one mark each. -/
theorem selectors_resplit :
    (∀ ts : List Token,
      weave (commasFrom 0 ts) (splitTopLevel ts) = ts ∧
      (commasFrom 0 ts).length + 1 = (splitTopLevel ts).length ∧
      (∀ t ∈ commasFrom 0 ts, t.kind = .comma) ∧
      ∀ part ∈ splitTopLevel ts, splitTopLevel part = [part]) ∧
    ∀ (source : Text) (rules : List Rule), parse source = .ok rules →
      ∀ v ∈ visits false rules, ∃ (pre : List Token) (parts : List (List Token)),
        pre <:+: tokenize source ∧ IsPrelude pre ∧
        parts = (splitTopLevel (withoutComments pre)).filter (joinTokens · ≠ []) ∧
        v.block.selectors = parts.map joinTokens ∧
        ∀ commas : List Token, (∀ t ∈ commas, t.kind = .comma) →
          commas.length + 1 = parts.length →
          splitTopLevel (weave commas parts) = parts ∧
          (∀ dpr, splitTopLevel (weave commas (parts.map (markOf dpr ++ ·))) =
              parts.map (markOf dpr ++ ·) ∧
            selectorsOf (weave commas (parts.map (markOf dpr ++ ·))) =
              v.block.selectors.map (variantSelector dpr)) ∧
          ∀ (c : Converter) (inKeyframes : Bool),
            ∀ variant ∈ (c.remBlocks v.block inKeyframes).variants, ∃ dpr ∈ ratios,
              variant.selectors = selectorsOf (weave commas (parts.map (markOf dpr ++ ·))) := by
  constructor
  · intro ts
    refine ⟨weave_splitTopLevel ts, ?_, fun t => kind_of_mem_commasFrom, fun part =>
      splitTopLevel_of_mem⟩
    rw [length_commasFrom]
    rfl
  intro source rules hparse v hv
  obtain ⟨pre, hrun, hpre, hselectors⟩ := ((parse_eq_ok_iff source rules).mp hparse).fromPrelude hv
  rw [← selectorsOf_withoutComments, selectorsOf_eq] at hselectors
  refine ⟨pre, membersOf (withoutComments pre), hrun, hpre, rfl, hselectors, ?_⟩
  intro commas hcommas hlength
  have hmembers := standsAlone_membersOf
    ((depthBehind_withoutComments 0 pre).trans hpre.closed)
  have htexts : ∀ part ∈ membersOf (withoutComments pre), joinTokens part ≠ [] :=
    fun part hpart => of_decide_eq_true (List.mem_filter.mp hpart).2
  have hmarked (dpr : Nat) : splitTopLevel
      (weave commas ((membersOf (withoutComments pre)).map (markOf dpr ++ ·))) =
        (membersOf (withoutComments pre)).map (markOf dpr ++ ·) := by
    apply splitTopLevel_weave _ hcommas (by rw [List.length_map, hlength])
    intro part hpart
    obtain ⟨member, hmember, rfl⟩ := List.mem_map.mp hpart
    exact (standsAlone_markOf dpr).append (hmembers member hmember)
  have hvariants (dpr : Nat) : selectorsOf
      (weave commas ((membersOf (withoutComments pre)).map (markOf dpr ++ ·))) =
        v.block.selectors.map (variantSelector dpr) := by
    rw [selectorsOf, hmarked, map_joinTokens_markOf dpr htexts, hselectors, List.filter_eq_self]
    intro selector hselector
    obtain ⟨text, -, rfl⟩ := List.mem_map.mp hselector
    exact decide_eq_true (variantSelector_ne_nil dpr text)
  refine ⟨splitTopLevel_weave hmembers hcommas hlength, fun dpr => ⟨hmarked dpr, hvariants dpr⟩,
    ?_⟩
  intro c inKeyframes variant hvariant
  obtain ⟨dpr, hdpr, heq⟩ := selectors_of_mem_variants hvariant
  exact ⟨dpr, hdpr, heq.trans (hvariants dpr).symm⟩

/-- A bracket that closes another kind, and a member without text: the selectors are split into
the same three again, each with one mark. -/
theorem selectors_resplit_mismatched :
    parse (utf8 "a(b],c,,d\x7b\x7d") =
        .ok [.style ⟨[utf8 "a(b]", utf8 "c", utf8 "d"], []⟩] ∧
      ∃ parts : List (List Token),
        parts.map joinTokens = [utf8 "a(b]", utf8 "c", utf8 "d"] ∧
        splitTopLevel (weave [commaToken, commaToken] parts) = parts ∧
        selectorsOf (weave [commaToken, commaToken] (parts.map (markOf 2 ++ ·))) =
          [utf8 "[data-dpr=\"2\"] a(b]", utf8 "[data-dpr=\"2\"] c", utf8 "[data-dpr=\"2\"] d"] := by
  have htokens : tokenize (utf8 "a(b],c,,d\x7b\x7d") =
      ([⟨.function, utf8 "a(", 0⟩, ⟨.ident, utf8 "b", 2⟩, ⟨.rightBracket, utf8 "]", 3⟩,
        ⟨.comma, utf8 ",", 4⟩, ⟨.ident, utf8 "c", 5⟩, ⟨.comma, utf8 ",", 6⟩, ⟨.comma, utf8 ",", 7⟩,
        ⟨.ident, utf8 "d", 8⟩] ++ ⟨.leftBrace, [0x7B], 9⟩ :: ([] ++ [⟨.rightBrace, [0x7D], 10⟩])) ++
          [] := by decide +kernel
  have hparse : parse (utf8 "a(b],c,,d\x7b\x7d") =
      .ok [.style ⟨[utf8 "a(b]", utf8 "c", utf8 "d"], []⟩] := by
    apply @parse_of_ruleSeq anyRun
    rw [htokens]
    refine .style (.of_selectorsOf ?_ ⟨?_, rfl⟩ ?_ trivial rfl .nil rfl) ?_ .nil
    · simp [LeadsEntry, betweenEntries]
    · simp [guards_cons, preludeStops, TokenKind.depthAfter]
    · decide
    · simp [LeadsPlain]
  obtain ⟨pre, parts, -, -, -, hselectors, hparts⟩ := selectors_resplit.2 _ _ hparse
    ⟨.style, ⟨[utf8 "a(b]", utf8 "c", utf8 "d"], []⟩, false⟩ List.mem_cons_self
  have hlength : [commaToken, commaToken].length + 1 = parts.length := by
    rw [← List.length_map (f := joinTokens), ← hselectors]
    rfl
  obtain ⟨hplain, hmarked, -⟩ := hparts [commaToken, commaToken] (by simp [commaToken]) hlength
  exact ⟨hparse, parts, hselectors.symm, hplain, (hmarked 2).2⟩

end PixelRem.Css
