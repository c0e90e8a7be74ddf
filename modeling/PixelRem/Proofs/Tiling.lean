import Mathlib
import PixelRem.Proofs.FaultPlaces

/-!
# Tokens and the source they are cut from

The tokens of a text are laid side by side: none is empty, their texts make up the text and
each stands at the length of what is before it.

Two slices are taken when at-rules are read, and `slice?` says when a slice has its bounds in
order.  Both always do:

* The vendor mark of an animation stands between the at sign and the last nine bytes of its
  keyword.  The keyword has ten bytes at least, also where a letter is written with a
  character outside ASCII (`ten_le_of_isKeyframes`): a lower-case text has no more bytes of
  ASCII than the text has bytes.
* An at-rule that is kept as written is the source from its keyword to the end of its last
  token (`slice?_run`).
-/

namespace PixelRem

namespace Css

/-! ## Slices -/

/-- The bytes of a text from `start` up to `stop`, if these are in order and in the text. -/
def slice? (t : Text) (start stop : Nat) : Option Text :=
  if start ≤ stop ∧ stop ≤ t.length then some ((t.take stop).drop start) else none

theorem slice?_append (a b c : Text) :
    slice? (a ++ (b ++ c)) a.length (a.length + b.length) = some b := by
  rw [slice?, if_pos (by simp)]
  congr 1
  rw [← List.append_assoc, List.take_left' (by simp), List.drop_left]

/-- The offset just behind a run. -/
def stopOf (ts : List Token) : Nat :=
  (ts.getLast?.map Token.stop).getD 0

section Runs

variable {source : Text} {before run behind : List Token}

theorem offset_eq_of_tokenize {t : Token} (htokens : tokenize source = before ++ t :: behind) :
    t.offset = (textOf before).length :=
  (stands_of_tokenize htokens).offset_eq

theorem startOf_of_tokenize (htokens : tokenize source = before ++ behind) :
    startOf source.length behind = (textOf before).length := by
  cases behind with
  | nil =>
    rw [startOf, ← textOf_tokenize source, htokens, List.append_nil]
  | cons t behind => exact offset_eq_of_tokenize htokens

/-- A run ends where what follows it begins. -/
theorem stopOf_run (htokens : tokenize source = before ++ (run ++ behind)) (hne : run ≠ []) :
    stopOf run = startOf source.length behind := by
  obtain ⟨init, last, rfl⟩ := (List.eq_nil_or_concat' run).resolve_left hne
  rw [List.append_assoc, List.singleton_append, ← List.append_assoc] at htokens
  have hlast := offset_eq_of_tokenize htokens
  rw [← List.singleton_append, ← List.append_assoc] at htokens
  rw [startOf_of_tokenize htokens, textOf_concat, List.length_append, ← hlast]
  simp [stopOf, Token.stop]

/-- A run is the source between its first byte and its last. -/
theorem slice?_run (htokens : tokenize source = before ++ (run ++ behind)) (hne : run ≠ []) :
    slice? source (startOf source.length run) (stopOf run) = some (textOf run) := by
  have hsource := textOf_tokenize source
  have hstart : startOf source.length run = (textOf before).length := by
    obtain ⟨t, run, rfl⟩ := List.exists_cons_of_ne_nil hne
    exact offset_eq_of_tokenize htokens
  have hstop := stopOf_run htokens hne
  rw [← List.append_assoc] at htokens
  rw [startOf_of_tokenize htokens, textOf_append, List.length_append] at hstop
  rw [hstart, hstop, ← hsource, htokens, textOf_append, textOf_append, List.append_assoc]
  exact slice?_append _ _ _

end Runs

/-! ## Keywords of animations -/

/-- A character has at most one byte of ASCII. -/
theorem countP_utf8EncodeChar (c : Char) :
    (String.utf8EncodeChar c).countP (· < 0x80) ≤ 1 := by
  have hhigh (n : Nat) (hlow : 0x80 ≤ n) (hn : n < 0x100) : ¬ UInt8.ofNat n < 0x80 := by
    rw [UInt8.lt_iff_toNat_lt, UInt8.toNat_ofNat_of_lt' hn]
    exact Nat.not_lt.mpr hlow
  unfold String.utf8EncodeChar
  dsimp only
  split_ifs
  · exact List.countP_le_length
  all_goals
    simp (disch := omega) only [List.countP_cons, List.countP_nil, hhigh, decide_false,
      Bool.false_eq_true, if_false, Nat.add_zero, Nat.zero_le]

theorem countP_ofChars (cs : List Char) : (Text.ofChars cs).countP (· < 0x80) ≤ cs.length := by
  induction cs with
  | nil => exact Nat.le_refl 0
  | cons c cs ih =>
    have hfirst := countP_utf8EncodeChar c
    rw [Text.ofChars] at ih
    rw [Text.ofChars, List.flatMap_cons, List.countP_append, List.length_cons]
    omega

theorem length_runesFrom (skip : Nat) (t : Text) : (Text.runesFrom skip t).length ≤ t.length := by
  fun_induction Text.runesFrom skip t <;> grind

/-- A lower-case text has no more bytes of ASCII than the text has bytes. -/
theorem countP_toLower (t : Text) : (Text.toLower t).countP (· < 0x80) ≤ t.length := by
  rw [Text.toLower]
  split_ifs
  · exact List.countP_le_length.trans_eq (List.length_map _)
  · refine (countP_ofChars _).trans ?_
    rw [List.length_map]
    exact length_runesFrom 0 t

/-- The keyword of an animation has an at sign and nine more bytes. -/
theorem ten_le_of_isKeyframes {t : Token} (hframes : IsKeyframes t) : 10 ≤ t.text.length := by
  obtain ⟨mark, -, -, hname⟩ := hframes
  have hcount := countP_toLower (t.text.drop 1)
  have hword : (utf8 "keyframes").countP (· < 0x80) = 9 := by decide
  rw [hname, List.countP_append, hword, List.length_drop] at hcount
  omega

theorem slice?_vendor {t : Token} (hframes : IsKeyframes t) :
    slice? t.text 1 (t.text.length - 9) = some (vendorOf t.text) := by
  have hlength := ten_le_of_isKeyframes hframes
  rw [slice?, if_pos (by omega), vendorOf, List.drop_take]
  rfl

/-! ## At-rules that are kept as written -/

mutual

/-- The texts of the at-rules in a rule that are kept as written. -/
def Rule.others : Rule → List Text
  | .other text => [text]
  | .media _ rules => Css.others rules
  | .keyframes _ _ rules => Css.others rules
  | .style _ => []
  | .keyframe _ => []
  | .comment _ => []
  | .unknown _ _ => []

/-- The texts of the at-rules in a tree that are kept as written, in document order. -/
def others : List Rule → List Text
  | [] => []
  | rule :: rules => rule.others ++ others rules

end

theorem others_append (xs ys : List Rule) : others (xs ++ ys) = others xs ++ others ys := by
  induction xs with
  | nil => rfl
  | cons x xs ih => rw [List.cons_append, others, others, ih, List.append_assoc]

/-- The texts are those of at-rules that stand in the list one behind the other, each with what
ends it. -/
def Holds (ts : List Token) (texts : List Text) : Prop :=
  ∃ runs : List (List Token), texts = runs.map (Text.trim ∘ textOf) ∧ runs.flatten.Sublist ts ∧
    ∀ run ∈ runs, run <:+: ts ∧ ∃ t raw, run = t :: raw ∧ IsOther t ∧ IsRaw raw

namespace Holds

variable {ts us : List Token} {xs ys : List Text}

theorem nil (ts : List Token) : Holds ts [] :=
  ⟨[], rfl, List.nil_sublist ts, by simp⟩

theorem mono (hxs : Holds us xs) (hus : us <:+: ts) : Holds ts xs := by
  obtain ⟨runs, htexts, hsub, hruns⟩ := hxs
  exact ⟨runs, htexts, hsub.trans hus.sublist, fun run hrun =>
    ⟨(hruns run hrun).1.trans hus, (hruns run hrun).2⟩⟩

theorem append (hxs : Holds ts xs) (hys : Holds us ys) : Holds (ts ++ us) (xs ++ ys) := by
  obtain ⟨runs, rfl, hsub, hruns⟩ := hxs
  obtain ⟨runs', rfl, hsub', hruns'⟩ := hys
  refine ⟨runs ++ runs', List.map_append.symm, ?_, fun run hrun => ?_⟩
  · rw [List.flatten_append]
    exact hsub.append hsub'
  · rcases List.mem_append.mp hrun with hrun | hrun
    · exact ⟨(hruns run hrun).1.trans (List.prefix_append ts us).isInfix, (hruns run hrun).2⟩
    · exact ⟨(hruns' run hrun).1.trans (List.suffix_append ts us).isInfix, (hruns' run hrun).2⟩

theorem raw {t : Token} {raw : List Token} (hname : IsOther t) (hraw : IsRaw raw) :
    Holds (t :: raw) [rawText t raw] := by
  refine ⟨[t :: raw], rfl, by simp, fun run hrun => ?_⟩
  obtain rfl := List.mem_singleton.mp hrun
  exact ⟨List.infix_rfl, t, raw, rfl, hname, hraw⟩

end Holds

section Derivations

variable {demand : Demand} {ts : List Token} {rules : List Rule}

theorem KeyframeSeq.others_eq_nil (hrules : KeyframeSeq demand ts rules) : others rules = [] := by
  induction hrules with
  | nil => rfl
  | skip _ _ ih => exact ih
  | comment _ _ ih => exact ih
  | keyframe _ _ ih => exact ih

theorem RuleSeq.holds (hrules : RuleSeq demand ts rules) : Holds ts (others rules) := by
  induction hrules with
  | nil => exact .nil []
  | skip _ _ ih => exact ih.mono (List.suffix_cons _ _).isInfix
  | comment _ _ ih => exact ih.mono (List.suffix_cons _ _).isInfix
  | @media t opening closing pre body ts inner rules _ _ _ _ _ _ _ ihblock ihtail =>
    have hblock : Holds (t :: (pre ++ opening :: (body ++ [closing]))) (others inner) :=
      ihblock.mono ⟨t :: (pre ++ [opening]), [closing], by simp⟩
    simpa [others, Rule.others] using hblock.append ihtail
  | @keyframes t opening closing pre body ts inner rules _ _ _ _ hframes _ _ ih =>
    have hblock : Holds (t :: (pre ++ opening :: (body ++ [closing]))) (others inner) := by
      rw [hframes.others_eq_nil]
      exact .nil _
    simpa [others, Rule.others] using hblock.append ih
  | other hname hraw _ ih => exact (Holds.raw hname hraw).append ih
  | style _ _ _ ih => exact ih.mono (List.suffix_append _ _).isInfix

/-- The at-rules of a stylesheet that are kept as written stand in it one behind the other, each
up to what ends it, which for the last can be the end of the source. -/
theorem Sheet.exists_runs (hsheet : Sheet demand ts rules) :
    ∃ runs : List (List Token), others rules = runs.map (Text.trim ∘ textOf) ∧
      runs.flatten.Sublist ts ∧ ∀ run ∈ runs, ∃ before behind t raw,
        ts = before ++ (run ++ behind) ∧ run = t :: raw ∧ IsOther t ∧
          (IsRaw raw ∨ behind = [] ∧ IsStatement raw) := by
  have hended {us : List Token} {run : List Token} (hrun : run <:+: us)
      (hkept : ∃ t raw, run = t :: raw ∧ IsOther t ∧ IsRaw raw) :
      ∃ before behind t raw, us = before ++ (run ++ behind) ∧ run = t :: raw ∧ IsOther t ∧
        (IsRaw raw ∨ behind = [] ∧ IsStatement raw) := by
    obtain ⟨before, behind, rfl⟩ := hrun
    obtain ⟨t, raw, hsplit, hname, hraw⟩ := hkept
    exact ⟨before, behind, t, raw, List.append_assoc _ _ _, hsplit, hname, .inl hraw⟩
  cases hsheet with
  | complete entries =>
    obtain ⟨runs, htexts, hsub, hruns⟩ := entries.holds
    exact ⟨runs, htexts, hsub, fun run hrun => hended (hruns run hrun).1 (hruns run hrun).2⟩
  | @unended t us raw rules entries hname hraw =>
    obtain ⟨runs, htexts, hsub, hruns⟩ := entries.holds
    refine ⟨runs ++ [t :: raw], ?_, ?_, fun run hrun => ?_⟩
    · rw [others_append, htexts, List.map_append]
      rfl
    · rw [List.flatten_append]
      exact hsub.append (by simp)
    · rcases List.mem_append.mp hrun with hrun | hrun
      · exact hended ((hruns run hrun).1.trans (List.prefix_append _ _).isInfix) (hruns run hrun).2
      · obtain rfl := List.mem_singleton.mp hrun
        exact ⟨us, [], t, raw, by simp, rfl, hname, .inr ⟨rfl, hraw⟩⟩

end Derivations

theorem rule_other {eof : Nat} {t : Token} {ts : List Token} (hname : IsOther t) {first : Rule}
    {rest : Rest ts} (hrule : rule eof t ts = .ok (first, rest)) :
    ∃ raw, ts = raw ++ rest.1 ∧ (IsRaw raw ∨ rest.1 = [] ∧ IsStatement raw) ∧
      first = .other (Text.trim (textOf (t :: raw))) := by
  have hread : readRule eof t ts = .ok (first, rest.1) := by
    rw [readRule, hrule]
    rfl
  rw [readRule_other hname] at hread
  obtain ⟨⟨raw, behind⟩, hraw, hfirst⟩ := map_eq_ok_iff.mp hread
  simp only [Prod.mk.injEq] at hfirst
  obtain ⟨rfl, rfl⟩ := hfirst
  obtain ⟨hsplit, hended⟩ := raw_of_rawFrom hraw
  exact ⟨raw, hsplit, hended, rfl⟩

/-- The tokens of a text lie side by side and make it up.  So the two slices that at-rules are
made of have their bounds in order wherever a keyword stands, and an at-rule that is kept as
written is the source from its keyword to its end without the white space around it, as the tree
of the text has it. -/
theorem tokens_tile (source : Text) :
    textOf (tokenize source) = source ∧
    (∀ t ∈ tokenize source, t.text ≠ []) ∧
    (∀ before t behind, tokenize source = before ++ t :: behind →
      t.offset = (textOf before).length ∧
      (IsKeyframes t → slice? t.text 1 (t.text.length - 9) = some (vendorOf t.text)) ∧
      (IsOther t → ∀ first rest, rule source.length t behind = .ok (first, rest) →
        ∃ raw, behind = raw ++ rest.1 ∧ (IsRaw raw ∨ rest.1 = [] ∧ IsStatement raw) ∧
          stopOf (t :: raw) = startOf source.length rest.1 ∧
          slice? source t.offset (stopOf (t :: raw)) = some (textOf (t :: raw)) ∧
          first = .other (Text.trim (textOf (t :: raw))))) ∧
    ∀ rules, parse source = .ok rules → ∃ runs : List (List Token),
      others rules = runs.map (Text.trim ∘ textOf) ∧ runs.flatten.Sublist (tokenize source) ∧
      ∀ run ∈ runs, ∃ before behind t raw, tokenize source = before ++ (run ++ behind) ∧
        run = t :: raw ∧ IsOther t ∧ (IsRaw raw ∨ behind = [] ∧ IsStatement raw) ∧
        slice? source t.offset (stopOf run) = some (textOf run) := by
  refine ⟨textOf_tokenize source, fun t => text_ne_nil, ?_, ?_⟩
  · intro before t behind htokens
    refine ⟨offset_eq_of_tokenize htokens, slice?_vendor, ?_⟩
    intro hname first rest hrule
    obtain ⟨raw, hsplit, hended, hfirst⟩ := rule_other hname hrule
    have hrun : tokenize source = before ++ ((t :: raw) ++ rest.1) := by
      rw [htokens, List.cons_append, ← hsplit]
    exact ⟨raw, hsplit, hended, stopOf_run hrun (List.cons_ne_nil t raw),
      slice?_run hrun (List.cons_ne_nil t raw), hfirst⟩
  · intro rules hparse
    obtain ⟨runs, htexts, hsub, hruns⟩ := ((parse_eq_ok_iff source rules).mp hparse).exists_runs
    refine ⟨runs, htexts, hsub, fun run hrun => ?_⟩
    obtain ⟨before, behind, t, raw, htokens, rfl, hname, hended⟩ := hruns run hrun
    exact ⟨before, behind, t, raw, htokens, rfl, hname, hended,
      slice?_run htokens (List.cons_ne_nil t raw)⟩

/-- An at-rule in a media query, with a comment and a semicolon in its braces, and a statement
that the source ends: both are slices of the source. -/
theorem tokens_tile_nested :
    parse (utf8 "@media p\x7b@a /*c*/ \x7b;\x7d\x7d@b ") =
        .ok [.media (utf8 "p") [.other (utf8 "@a /*c*/ \x7b;\x7d")], .other (utf8 "@b")] ∧
      ∃ first second : List Token,
        [utf8 "@a /*c*/ \x7b;\x7d", utf8 "@b"] =
          [Text.trim (textOf first), Text.trim (textOf second)] ∧
        (first ++ second).Sublist (tokenize (utf8 "@media p\x7b@a /*c*/ \x7b;\x7d\x7d@b ")) ∧
        ∀ run ∈ [first, second], ∃ start,
          slice? (utf8 "@media p\x7b@a /*c*/ \x7b;\x7d\x7d@b ") start (stopOf run) =
            some (textOf run) := by
  have htokens : tokenize (utf8 "@media p\x7b@a /*c*/ \x7b;\x7d\x7d@b ") =
      (⟨.atKeyword, utf8 "@media", 0⟩ ::
        ([⟨.whitespace, utf8 " ", 6⟩, ⟨.ident, utf8 "p", 7⟩] ++ ⟨.leftBrace, [0x7B], 8⟩ ::
          ((⟨.atKeyword, utf8 "@a", 9⟩ ::
            (([⟨.whitespace, utf8 " ", 11⟩, ⟨.comment, utf8 "/*c*/", 12⟩,
              ⟨.whitespace, utf8 " ", 17⟩] ++ ⟨.leftBrace, [0x7B], 18⟩ ::
                ([⟨.semicolon, utf8 ";", 19⟩] ++ [⟨.rightBrace, [0x7D], 20⟩])) ++ [])) ++
            ⟨.rightBrace, [0x7D], 21⟩ :: []))) ++
        ⟨.atKeyword, utf8 "@b", 22⟩ :: [⟨.whitespace, utf8 " ", 24⟩] := by decide +kernel
  have hother (name : Text) (offset : Nat) (hname : atRuleOf name = .other) :
      IsOther ⟨.atKeyword, name, offset⟩ := by
    obtain ⟨-, h⟩ | ⟨-, h⟩ | ⟨h, -⟩ := atRuleOf_cases (t := ⟨.atKeyword, name, offset⟩) rfl
    · rw [h] at hname
      contradiction
    · rw [h] at hname
      contradiction
    · exact h
  have hparse : parse (utf8 "@media p\x7b@a /*c*/ \x7b;\x7d\x7d@b ") =
      .ok [.media (utf8 "p") [.other (utf8 "@a /*c*/ \x7b;\x7d")], .other (utf8 "@b")] := by
    rw [parse_eq_ok_iff, htokens]
    refine .unended (.media ⟨rfl, rfl⟩ (Token.IsWord.isPrelude_blank (by decide) _ _) trivial rfl
      (.other (hother _ _ (by decide +kernel)) (.block ?_ rfl ?_ rfl) .nil) rfl .nil)
      (hother _ _ (by decide +kernel)) ?_
    · simp [IsStatement]
    · exact .token (by simp) (by simp) .nil
    · simp [IsStatement]
  obtain ⟨runs, htexts, hsub, hruns⟩ := (tokens_tile _).2.2.2 _ hparse
  have hlength : runs.length = 2 := by
    rw [← List.length_map (f := Text.trim ∘ textOf), ← htexts]
    rfl
  obtain ⟨first, second, rfl⟩ := List.length_eq_two.mp hlength
  refine ⟨hparse, first, second, htexts, by simpa using hsub, fun run hrun => ?_⟩
  obtain ⟨-, -, t, -, -, -, -, -, hslice⟩ := hruns run hrun
  exact ⟨t.offset, hslice⟩

end Css

end PixelRem
