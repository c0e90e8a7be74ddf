import Mathlib
import PixelRem.Proofs.Parse
import PixelRem.Proofs.Spacing
import PixelRem.Proofs.Trimming

/-!
# Tokens that are printed anew

Comments, the keywords of media queries and animations, and at-rules that are kept as
written.  The printer writes comment marks and known keywords itself, so these tokens
are not those of the source; here they are shown to be read back as what they stand
for.

* `heads_comment`: a comment text without a closing mark is read back in its marks,
  and the text of every comment token is such a text (`unclosed_commentText`).
* `heads_media` and `heads_keyframes`: the keyword of a media query is always written
  `@media`, and that of an animation keeps its vendor mark.
* `clean_raw`: an at-rule that is kept as written is read back token by token.
-/

namespace PixelRem.Css

/-! ## Comments -/

/-- No closing mark of a comment stands in the text. -/
def Unclosed : Text → Prop
  | a :: b :: t => ¬ (a = ascii '*' ∧ b = ascii '/') ∧ Unclosed (b :: t)
  | _ => True

theorem commentRun_cons (a b : UInt8) (t : Text) :
    commentRun (a :: b :: t) =
      if a = ascii '*' ∧ b = ascii '/' then 2 else 1 + commentRun (b :: t) := by
  rw [commentRun]
  simp only [Bool.and_eq_true, decide_eq_true_eq]

theorem commentRun_unclosed {v : Text} (hv : Unclosed v) (y : Text) :
    commentRun (v ++ (utf8 "*/" ++ y)) = v.length + 2 := by
  induction v with
  | nil => exact (commentRun_cons _ _ y).trans (if_pos ⟨rfl, rfl⟩)
  | cons a v ih =>
    cases v with
    | nil =>
      have hclose : commentRun (utf8 "*/" ++ y) = 2 := ih trivial
      have hstar : ¬ (a = ascii '*' ∧ ascii '*' = ascii '/') := fun h => absurd h.2 (by decide)
      calc commentRun ([a] ++ (utf8 "*/" ++ y))
          = 1 + commentRun (utf8 "*/" ++ y) := (commentRun_cons a _ _).trans (if_neg hstar)
        _ = [a].length + 2 := by rw [hclose]; rfl
    | cons b v =>
      rw [List.cons_append, List.cons_append, commentRun_cons, if_neg hv.1, ← List.cons_append,
        ih hv.2, List.length_cons (a := a)]
      omega

theorem not_unclosed_append (v : Text) : ¬ Unclosed (v ++ utf8 "*/") := by
  induction v with
  | nil => exact fun h => h.1 ⟨rfl, rfl⟩
  | cons a v ih =>
    obtain ⟨b, w, hw⟩ := List.exists_cons_of_ne_nil (l := v ++ [0x2A, 0x2F]) (by simp)
    replace hw : v ++ utf8 "*/" = b :: w := hw
    rw [List.cons_append, hw]
    rw [hw] at ih
    exact fun h => ih h.2

/-- A comment that is read through `u` holds its closing mark at the end of `u`, or
none. -/
theorem unclosed_of_commentRun {u y : Text} (hrun : commentRun (u ++ y) = u.length) :
    Unclosed u ∨ ∃ v, u = v ++ utf8 "*/" ∧ Unclosed v := by
  induction u with
  | nil => exact .inl trivial
  | cons a u ih =>
    cases u with
    | nil => exact .inl trivial
    | cons b t =>
      rw [List.cons_append, List.cons_append, commentRun_cons] at hrun
      split_ifs at hrun with hclose
      · obtain ⟨rfl, rfl⟩ := hclose
        obtain rfl : t = [] := List.eq_nil_of_length_eq_zero (by
          simp only [List.length_cons] at hrun
          omega)
        exact .inr ⟨[], rfl, trivial⟩
      · rw [← List.cons_append] at hrun
        rcases ih (by simp only [List.length_cons] at hrun ⊢; omega) with hopen | ⟨v, hv, hopen⟩
        · exact .inl ⟨hclose, hopen⟩
        · refine .inr ⟨a :: v, by rw [hv]; rfl, ?_⟩
          cases v with
          | nil => trivial
          | cons c v =>
            obtain ⟨rfl, -⟩ := List.cons.inj hv
            exact ⟨hclose, hopen⟩

theorem dropSuffix?_append (v w : Text) : Text.dropSuffix? w (v ++ w) = some v := by
  rw [Text.dropSuffix?, if_pos (List.isSuffixOf_iff_suffix.mpr (List.suffix_append v w))]
  simp

theorem commentText_open (u : Text) :
    commentText (utf8 "/*" ++ u) = ((utf8 "*/").dropSuffix? u).getD u := by
  have hprefix : Text.dropPrefix? (utf8 "/*") (utf8 "/*" ++ u) = some u := by
    rw [Text.dropPrefix?, if_pos (List.isPrefixOf_iff_prefix.mpr (List.prefix_append _ u))]
    simp
  rw [commentText, hprefix]
  rfl

/-- A comment token in its marks. -/
def commentToken (body : Text) : Token :=
  ⟨.comment, utf8 "/*" ++ (body ++ utf8 "*/"), 0⟩

theorem commentText_commentToken (body : Text) : commentText (commentToken body).text = body := by
  rw [commentToken, commentText_open, dropSuffix?_append]
  rfl

/-- A comment is read back in its marks. -/
theorem heads_comment {body : Text} (hbody : Unclosed body) (y : Text) :
    (commentToken body).Heads y := by
  refine ⟨ascii '/', ascii '*' :: (body ++ utf8 "*/"), rfl, ?_⟩
  have hscan : scan (ascii '/') (ascii '*' :: (body ++ utf8 "*/") ++ y) =
      (.comment, 2 + commentRun (body ++ utf8 "*/" ++ y)) := rfl
  rw [hscan, List.append_assoc, commentRun_unclosed hbody]
  have hlength : (commentToken body).text.length = 2 + (body.length + 2) := by
    rw [commentToken, List.length_append, List.length_append]
    rfl
  rw [hlength]
  rfl

/-- The text of a comment holds no closing mark. -/
theorem unclosed_commentText {t : Token} {y : Text} (hheads : t.Heads y)
    (hkind : t.kind = .comment) : Unclosed (commentText t.text) := by
  obtain ⟨b, tail, htext, hscan⟩ := hheads
  obtain ⟨rfl, rest, hrest, hrule⟩ := scan_comment (show (scan b (tail ++ y)).1 = .comment by
    rw [hscan, hkind])
  have hsize : 2 + commentRun rest = t.text.length := congrArg Prod.snd (hrule.symm.trans hscan)
  rw [htext, List.length_cons] at hsize
  obtain ⟨c, u, rfl⟩ := List.exists_cons_of_ne_nil (l := tail) (by
    rintro rfl
    simp at hsize
    omega)
  obtain ⟨rfl, rfl⟩ := List.cons.inj hrest
  have hrun : commentRun (u ++ y) = u.length := by
    rw [List.length_cons] at hsize
    change 2 + commentRun (u ++ y) = _ at hsize
    omega
  rw [htext]
  change Unclosed (commentText (utf8 "/*" ++ u))
  rw [commentText_open]
  rcases unclosed_of_commentRun hrun with hopen | ⟨v, rfl, hopen⟩
  · have hsuffix : Text.dropSuffix? (utf8 "*/") u = none := by
      refine if_neg fun hsuffix => ?_
      obtain ⟨v, rfl⟩ := List.isSuffixOf_iff_suffix.mp hsuffix
      exact not_unclosed_append v hopen
    rw [hsuffix]
    exact hopen
  · rw [dropSuffix?_append]
    exact hopen

/-! ## Keywords -/

theorem nameRun_cons {b : UInt8} (hb : b ≠ ascii '\\') (t : Text) :
    nameRun (b :: t) = if isNameByte b then 1 + nameRun t else 0 := by
  unfold nameRun
  rw [nameRunFrom, escapeLength_of_ne hb]

theorem plainIdentLength_cons {b : UInt8} (hb : b ≠ ascii '\\') (t : Text) :
    plainIdentLength (b :: t) = if isNameStart b then nameRun t + 1 else 0 := by
  unfold plainIdentLength
  rw [nameStartLength, escapeLength_of_ne hb]
  split_ifs
  · exact Nat.add_comm 1 _
  · rfl

/-- Whether two bytes without an escape start a name is settled by them alone. -/
theorem identLength_two {a b : UInt8} (ha : a ≠ ascii '\\') (hb : b ≠ ascii '\\') {x : Text}
    (hx : 2 ≤ identLength (a :: b :: x)) (y : Text) :
    identLength (a :: b :: y) = 2 + nameRun y := by
  rw [identLength, plainIdentLength_cons hb, plainIdentLength_cons ha, nameRun_cons hb] at hx
  rw [identLength, plainIdentLength_cons hb, plainIdentLength_cons ha, nameRun_cons hb]
  by_cases hhyphen : a = ascii '-'
  · rw [if_pos hhyphen] at hx ⊢
    by_cases hsecond : b = ascii '-'
    · rw [if_pos hsecond]
    · rw [if_neg hsecond] at hx ⊢
      by_cases hstart : isNameStart b = true
      · rw [if_pos hstart]
        exact Nat.add_comm _ 2
      · rw [if_neg hstart] at hx
        exact absurd hx (by decide)
  · rw [if_neg hhyphen] at hx ⊢
    split_ifs at hx ⊢ <;> omega

theorem nameRun_append {v z : Text} (hv : ascii '\\' ∉ v) (hrun : v.length ≤ nameRun (v ++ z))
    (y : Text) : nameRun (v ++ y) = v.length + nameRun y := by
  induction v with
  | nil => exact (Nat.zero_add _).symm
  | cons b v ih =>
    rw [List.mem_cons, not_or] at hv
    have hb : b ≠ ascii '\\' := fun h => hv.1 h.symm
    rw [List.cons_append, nameRun_cons hb, List.length_cons] at hrun
    rw [List.cons_append, nameRun_cons hb, List.length_cons]
    split_ifs at hrun ⊢
    · rw [ih hv.2 (by omega)]
      omega
    · omega

/-- A name that is read through its first two bytes goes on as a run of name bytes. -/
theorem identLength_append {v z : Text} (hescape : ascii '\\' ∉ v) (hlong : 2 ≤ v.length)
    (hident : v.length ≤ identLength (v ++ z)) (y : Text) :
    identLength (v ++ y) = v.length + nameRun y := by
  match v, hlong with
  | a :: b :: v, _ =>
    simp only [List.mem_cons, not_or] at hescape
    have htwo := identLength_two (fun h => hescape.1 h.symm) (fun h => hescape.2.1 h.symm)
      (x := v ++ z) (Nat.le_trans (by simp only [List.length_cons]; omega) hident)
    simp only [List.cons_append, List.length_cons] at hident ⊢
    rw [htwo] at hident
    rw [htwo, nameRun_append hescape.2.2 (z := z) (by omega)]
    omega

/-- An at-keyword with a given name. -/
def keywordToken (name : Text) : Token :=
  ⟨.atKeyword, ascii '@' :: name, 0⟩

theorem heads_keyword {name y : Text} (hne : name ≠ [])
    (hname : identLength (name ++ y) = name.length) : (keywordToken name).Heads y := by
  refine ⟨ascii '@', name, rfl, ?_⟩
  unfold scan scan?
  rw [hname]
  obtain ⟨b, name, rfl⟩ := List.exists_cons_of_ne_nil hne
  rfl

theorem Token.Heads.keyword {t : Token} {y : Text} (hheads : t.Heads y)
    (hkind : t.kind = .atKeyword) :
    ∃ name, t.text = ascii '@' :: name ∧ identLength (name ++ y) = name.length := by
  obtain ⟨b, name, htext, hscan⟩ := hheads
  obtain ⟨rfl, n, hident, hrule⟩ := scan_atKeyword (show (scan b (name ++ y)).1 = .atKeyword by
    rw [hscan, hkind])
  refine ⟨name, htext, ?_⟩
  have hsize : n + 2 = t.text.length := congrArg Prod.snd (hrule.symm.trans hscan)
  rw [htext, List.length_cons] at hsize
  omega

theorem toLower_ascii {t : Text} (ht : ∀ b ∈ t, b < 0x80) :
    Text.toLower t = t.map Byte.toLower := by
  unfold Text.toLower
  exact if_pos (List.all_eq_true.mpr fun b hb => decide_eq_true (ht b hb))

theorem isMedia_keywordToken : IsMedia (keywordToken (utf8 "media")) :=
  ⟨rfl, rfl⟩

theorem heads_media {y : Text} (hy : Ends y) : (keywordToken (utf8 "media")).Heads y := by
  refine heads_keyword (by decide) ?_
  exact identLength_behind hy (by decide) (by decide) rfl

/-- What an ASCII keyword of an animation is made of. -/
theorem IsKeyframes.parts {t : Token} {name : Text} (hframes : IsKeyframes t)
    (htext : t.text = ascii '@' :: name) (hascii : ∀ b ∈ t.text, b < 0x80) :
    ∃ mark last, IsVendor mark ∧ name = vendorOf t.text ++ last ∧ last.length = 9 ∧
      (vendorOf t.text).map Byte.toLower = mark := by
  obtain ⟨mark, hmark, -, hname⟩ := hframes
  rw [htext] at hname hascii
  have hlower : name.map Byte.toLower = mark ++ utf8 "keyframes" := by
    rw [← toLower_ascii fun b hb => hascii b (List.mem_cons_of_mem _ hb)]
    exact hname
  obtain ⟨vendor, last, rfl, hvendor, hlast⟩ := List.map_eq_append_iff.mp hlower
  have hlength : last.length = 9 := by
    rw [← List.length_map Byte.toLower, hlast]
    rfl
  have htake : vendorOf t.text = vendor := by
    unfold vendorOf
    rw [htext]
    show (vendor ++ last).take ((ascii '@' :: (vendor ++ last)).length - 10) = vendor
    rw [List.length_cons, List.length_append, hlength, show vendor.length + 9 + 1 - 10 =
      vendor.length by omega, List.take_left]
  exact ⟨mark, last, hmark, by rw [htake], hlength, by rw [htake, hvendor]⟩

/-- The keyword of an animation in the printer's spelling. -/
def keyframesToken (vendor : Text) : Token :=
  keywordToken (vendor ++ utf8 "keyframes")

theorem vendorOf_keyframesToken (vendor : Text) :
    vendorOf (keyframesToken vendor).text = vendor := by
  have hlength : (keyframesToken vendor).text.length - 10 = vendor.length := by
    show (ascii '@' :: (vendor ++ utf8 "keyframes")).length - 10 = vendor.length
    rw [List.length_cons, List.length_append, show (utf8 "keyframes").length = 9 from rfl]
    omega
  unfold vendorOf
  rw [hlength]
  exact List.take_left

section Keyframes

variable {t : Token} {behind : Text} (hclean : Clean [t] behind) (hframes : IsKeyframes t)

include hclean hframes

theorem isKeyframes_keyframesToken : IsKeyframes (keyframesToken (vendorOf t.text)) := by
  obtain ⟨name, htext, -⟩ := hclean.heads.keyword hframes.kind
  have hascii := hclean.asciiKeywords t List.mem_cons_self hframes.kind
  obtain ⟨mark, last, hmark, hname, -, hlower⟩ := hframes.parts htext hascii
  have hletters : (utf8 "keyframes").all (· < 0x80) = true := rfl
  refine ⟨mark, hmark, rfl, ?_⟩
  show Text.toLower (vendorOf t.text ++ utf8 "keyframes") = mark ++ utf8 "keyframes"
  rw [toLower_ascii, List.map_append, hlower]
  · rfl
  · intro c hc
    rcases List.mem_append.mp hc with hc | hc
    · refine hascii c ?_
      rw [htext, hname]
      exact List.mem_cons_of_mem _ (List.mem_append_left _ hc)
    · exact of_decide_eq_true (List.all_eq_true.mp hletters c hc)

theorem heads_keyframes {y : Text} (hy : Ends y) :
    (keyframesToken (vendorOf t.text)).Heads y := by
  obtain ⟨name, htext, hident⟩ := hclean.heads.keyword hframes.kind
  obtain ⟨mark, last, hmark, hname, hlast, hlower⟩ := hframes.parts htext
    (hclean.asciiKeywords t List.mem_cons_self hframes.kind)
  have hescape : ascii '\\' ∉ vendorOf t.text := by
    intro hmem
    refine hclean.noEscape ?_
    rw [textOf_cons, htext, hname]
    exact List.mem_append_left _ (List.mem_cons_of_mem _ (List.mem_append_left _ hmem))
  have hkeyframes : nameRun (utf8 "keyframes" ++ y) = 9 :=
    nameRun_behind hy (by decide) rfl
  have hlength : (vendorOf t.text).length = mark.length := by
    rw [← hlower, List.length_map]
  refine heads_keyword (List.append_ne_nil_of_right_ne_nil _ (by decide)) ?_
  rcases hmark with rfl | ⟨word, -, rfl⟩
  · rw [List.eq_nil_of_length_eq_zero hlength, List.nil_append]
    exact identLength_behind hy (by decide) (by decide) rfl
  · -- a vendor mark has its two hyphens, and two bytes settle that a name starts
    have hlong : 2 ≤ (vendorOf t.text).length := by
      rw [hlength]
      simp
    rw [hname, List.append_assoc, List.length_append] at hident
    rw [List.append_assoc, identLength_append hescape hlong (by rw [hident]; omega), hkeyframes,
      List.length_append]
    rfl

end Keyframes

/-! ## At-rules that are kept as written -/

/-- No text of the table starts with the byte. -/
def startsOther (table : List Text) (b : UInt8) : Bool :=
  table.all fun blank => blank.head?.any (· != b)

theorem trimHeadFrom_of_startsOther {table : List Text} {b : UInt8}
    (hb : startsOther table b = true) (t : Text) :
    Text.trimHeadFrom table 0 (b :: t) = b :: t := by
  apply Text.trimHeadFrom_of_forall
  intro blank hblank hprefix
  have hhead := List.all_eq_true.mp hb blank hblank
  cases blank with
  | nil => simp at hhead
  | cons a blank =>
    obtain ⟨rfl, -⟩ := List.cons_prefix_cons.mp hprefix
    simp at hhead

/-- A text that starts and ends with bytes of no white space is not trimmed. -/
theorem trim_eq_self {t : Text} {b c : UInt8} (hb : startsOther Text.blanks b = true)
    (hc : startsOther (Text.blanks.map List.reverse) c = true) (hhead : t.head? = some b)
    (hlast : t.getLast? = some c) : Text.trim t = t := by
  obtain ⟨tail, rfl⟩ := List.head?_eq_some_iff.mp hhead
  obtain ⟨init, hinit⟩ := List.getLast?_eq_some_iff.mp hlast
  unfold Text.trim Text.trimStart Text.trimEnd
  rw [trimHeadFrom_of_startsOther hb, hinit, List.reverse_append, List.reverse_singleton,
    List.singleton_append, trimHeadFrom_of_startsOther hc]
  simp

theorem Token.Heads.startsSolid {t : Token} {y : Text} (hheads : t.Heads y)
    (hkind : t.kind = .whitespace) : StartsSolid y := by
  obtain ⟨b, tail, htext, hscan⟩ := hheads
  obtain ⟨-, hrule⟩ := scan_whitespace (show (scan b (tail ++ y)).1 = .whitespace by
    rw [hscan, hkind])
  have hsize : 1 + spaceRun (tail ++ y) = t.text.length :=
    congrArg Prod.snd (hrule.symm.trans hscan)
  intro c hc
  obtain ⟨z, rfl⟩ := List.head?_eq_some_iff.mp hc
  by_contra hspace
  rw [Bool.not_eq_false] at hspace
  obtain ⟨-, hall⟩ := Token.Heads.blank ⟨b, tail, htext, hscan⟩ hkind
  have hspaces : ∀ d ∈ tail, Byte.isSpace d = true := fun d hd =>
    hall d (htext ▸ List.mem_cons_of_mem b hd)
  have hrun : tail.length + 1 ≤ spaceRun (tail ++ c :: z) := by
    unfold spaceRun
    rw [List.takeWhile_append_of_pos hspaces, List.takeWhile_cons, if_pos hspace,
      List.length_append, List.length_cons]
    omega
  rw [htext, List.length_cons] at hsize
  omega

/-- Tokens before a mark are cut the same way whatever stands behind the mark. -/
theorem cut_mark {ts : List Token} {last : Token} {s : Text} (hcut : Cut (ts ++ [last]) s)
    (hlast : last.kind ∈ marks) (y : Text) : Cut (ts ++ [last]) y := by
  induction ts with
  | nil =>
    obtain ⟨b, -, -, -, hheads⟩ := hcut.1.mark hlast
    exact ⟨hheads _, trivial⟩
  | cons t ts ih =>
    obtain ⟨hfirst, hrest⟩ := hcut
    refine ⟨?_, ih hrest⟩
    obtain ⟨z, hz⟩ := Cut.mem hrest (List.mem_append_right ts List.mem_cons_self)
    obtain ⟨b, hb, htext, hsolid, -⟩ := hz.mark hlast
    have hbehind (w : Text) : textOf (ts ++ [last]) ++ w = textOf ts ++ b :: w := by
      rw [textOf_append, textOf_cons, htext, List.append_assoc]
      rfl
    have hheads : t.Heads (textOf ts ++ b :: s) := by
      rw [← hbehind]
      exact hfirst
    show t.Heads (textOf (ts ++ [last]) ++ y)
    rw [hbehind]
    by_cases hkind : t.kind = .whitespace
    · obtain ⟨hne, hall⟩ := hheads.blank hkind
      have hstart := hheads.startsSolid hkind
      have hblank : t = ⟨.whitespace, t.text, t.offset⟩ := by rw [← hkind]
      rw [hblank]
      refine heads_blank hne hall ?_ t.offset
      cases htexts : textOf ts with
      | nil => simpa using hsolid
      | cons c w =>
        rw [htexts] at hstart
        exact hstart
    · exact hheads.swap hkind (swaps_cons hb _ _ s y)

/-- What is kept as written ends with a mark. -/
theorem IsRaw.last {raw : List Token} (hraw : IsRaw raw) :
    ∃ init last, raw = init ++ [last] ∧ (last.kind = .semicolon ∨ last.kind = .rightBrace) := by
  cases hraw with
  | statement _ hend => exact ⟨_, _, rfl, .inl hend⟩
  | @block ts inner opening closing _ _ _ hclose =>
    exact ⟨ts ++ opening :: inner, closing, by simp, .inr hclose⟩

section Raw

variable {t : Token} {raw : List Token} {s : Text} (hclean : Clean (t :: raw) s)
  (hkind : t.kind = .atKeyword) (hraw : IsRaw raw)

include hclean hraw

theorem cut_raw (y : Text) : Cut (t :: raw) y := by
  obtain ⟨init, last, rfl, hlast⟩ := hraw.last
  have hmark : last.kind ∈ marks := by
    rcases hlast with hlast | hlast <;> rw [hlast] <;> decide
  have hrun : Clean ((t :: init) ++ [last]) s := hclean
  exact cut_mark hrun.cut hmark y

include hkind

theorem rawText_eq : rawText t raw = textOf (t :: raw) := by
  obtain ⟨name, htext, -⟩ := hclean.heads.keyword hkind
  obtain ⟨init, last, rfl, hlast⟩ := hraw.last
  obtain ⟨z, hz⟩ := hclean.cut.mem (t := last) (by simp)
  obtain ⟨c, hc, hend, hspace, -⟩ := hz.mark (by rcases hlast with hlast | hlast <;> rw [hlast] <;>
    decide)
  have hmarks : stops.all (fun c => Byte.isSpace c ||
      startsOther (Text.blanks.map List.reverse) c) = true := by decide
  have hother : startsOther (Text.blanks.map List.reverse) c = true := by
    simpa [hspace] using List.all_eq_true.mp hmarks c hc
  show Text.trim (textOf (t :: (init ++ [last]))) = _
  refine trim_eq_self (b := ascii '@') (by decide) hother ?_ ?_
  · rw [textOf_cons, htext]
    rfl
  · rw [textOf_cons, textOf_append, textOf_cons, hend, textOf_nil, List.append_nil,
      ← List.append_assoc, List.getLast?_concat]

end Raw

end PixelRem.Css
