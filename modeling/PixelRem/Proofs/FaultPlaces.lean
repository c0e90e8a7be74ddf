import Mathlib
import PixelRem.Proofs.Faults
import PixelRem.Proofs.TokenFrame

/-!
# What parse errors point at

A fault holds an offset, and a parse error the line and the column of it.  `Points` says on the
source what stands at the offset for each kind of problem: a byte for most of them, and for the
others the first token of what is incomplete.

The offset can be told from line and column, as places come in the order of their offsets
(`positionOf_before`).
-/

namespace PixelRem.Css

/-! ## Order of places -/

/-- A place comes before another one: on an earlier line, or further left on its line. -/
def Position.Before (p q : Position) : Prop :=
  p.line < q.line ∨ p.line = q.line ∧ p.column < q.column

theorem positionOf_before {source : Text} {i j : Nat} (hij : i < j) (hj : j ≤ source.length) :
    (positionOf source i).Before (positionOf source j) := by
  obtain ⟨y, hy⟩ : ∃ y, source.take j = source.take i ++ y :=
    ⟨(source.take j).drop i, by
      rw [← Nat.min_eq_left hij.le, ← List.take_take, Nat.min_eq_left hij.le,
        List.take_append_drop]⟩
  have hlength : 0 < y.length := by
    have hsame := congrArg List.length hy
    simp only [List.length_append, List.length_take] at hsame
    omega
  by_cases hbreak : (0x0A : UInt8) ∈ y
  · left
    have hcount : 0 < y.count 0x0A := List.count_pos_iff.mpr hbreak
    simp only [positionOf, hy, List.count_append]
    omega
  · right
    have hcount : y.count 0x0A = 0 := List.count_eq_zero.mpr hbreak
    have hline : ∀ b ∈ y.reverse, (b != 0x0A) = true := by
      intro b hb
      rw [bne_iff_ne]
      rintro rfl
      exact hbreak (List.mem_reverse.mp hb)
    constructor
    · simp only [positionOf, hy, List.count_append, hcount, Nat.add_zero]
    · simp only [positionOf, hy, List.reverse_append, List.takeWhile_append_of_pos hline,
        List.length_append, List.length_reverse]
      omega

/-- An offset can be told from its place. -/
theorem eq_of_positionOf_eq {source : Text} {i j : Nat} (hi : i ≤ source.length)
    (hj : j ≤ source.length) (hsame : positionOf source i = positionOf source j) : i = j := by
  have hirrefl (p : Position) : ¬ p.Before p := by
    unfold Position.Before
    omega
  rcases Nat.lt_trichotomy i j with hlt | heq | hgt
  · exact absurd (hsame ▸ positionOf_before hlt hj) (hirrefl _)
  · exact heq
  · exact absurd (hsame ▸ positionOf_before hgt hi) (hirrefl _)

/-! ## Bytes of tokens -/

/-- The first byte of a token, for some kinds that tell it. -/
def TokenKind.byte? : TokenKind → Option UInt8
  | .leftBrace => some 0x7B
  | .rightBrace => some 0x7D
  | .colon => some (ascii ':')
  | .semicolon => some (ascii ';')
  | .atKeyword => some (ascii '@')
  | _ => none

theorem punctuation?_byte {b c : UInt8} {kind : TokenKind} (hkind : punctuation? b = some kind)
    (hbyte : kind.byte? = some c) : b = c := by
  simp only [punctuation?, ite_eq_iff, Option.some.injEq, reduceCtorEq, and_false, or_false]
    at hkind
  obtain ⟨rfl, rfl⟩ | ⟨-, ⟨rfl, rfl⟩ | ⟨-, ⟨rfl, rfl⟩ | ⟨-, ⟨rfl, rfl⟩ | ⟨-, ⟨rfl, rfl⟩ |
    ⟨-, ⟨rfl, rfl⟩ | ⟨-, ⟨rfl, rfl⟩ | ⟨-, ⟨rfl, rfl⟩ | ⟨-, rfl, rfl⟩⟩⟩⟩⟩⟩⟩⟩ := hkind <;>
  cases hbyte <;> rfl

theorem Token.Heads.byte {t : Token} {y : Text} {b : UInt8} (hheads : t.Heads y)
    (hbyte : t.kind.byte? = some b) : ∃ tail, t.text = b :: tail := by
  obtain ⟨c, tail, htext, hscan⟩ := hheads
  have hkind : (scan c (tail ++ y)).1 = t.kind := congrArg Prod.fst hscan
  by_cases hkeyword : t.kind = .atKeyword
  · obtain ⟨rfl, -⟩ := scan_atKeyword (hkind.trans hkeyword)
    rw [hkeyword] at hbyte
    obtain rfl := Option.some.inj hbyte
    exact ⟨tail, htext⟩
  · have hmark : t.kind ∈ marks := by
      cases hcase : t.kind <;> simp_all [TokenKind.byte?, marks]
    obtain ⟨kind, hc, hrule⟩ := scan_mark (hkind ▸ hmark)
    rw [hrule] at hkind
    obtain rfl : kind = t.kind := hkind
    rw [punctuation?_byte hc hbyte] at htext
    exact ⟨tail, htext⟩

section Tokens

variable {source : Text} {t : Token}

theorem exists_stands (ht : t ∈ tokenize source) : ∃ ts us, Stands source ts t us := by
  obtain ⟨ts, us, htokens⟩ := List.append_of_mem ht
  exact ⟨ts, us, stands_of_tokenize htokens⟩

theorem text_ne_nil (ht : t ∈ tokenize source) : t.text ≠ [] := by
  obtain ⟨ts, us, hstands⟩ := exists_stands ht
  obtain ⟨b, tail, htext, -⟩ := hstands.heads
  simp [htext]

theorem offset_le (ht : t ∈ tokenize source) : t.offset ≤ source.length := by
  obtain ⟨ts, us, hstands⟩ := exists_stands ht
  rw [hstands.offset_eq, hstands.value_eq, List.length_append]
  omega

/-- The first byte of a token stands at its offset. -/
theorem byte_at_offset (ht : t ∈ tokenize source) {b : UInt8} (hbyte : t.kind.byte? = some b) :
    source[t.offset]? = some b := by
  obtain ⟨ts, us, hstands⟩ := exists_stands ht
  obtain ⟨tail, htext⟩ := hstands.heads.byte hbyte
  rw [hstands.offset_eq, hstands.value_eq, List.getElem?_append_right (Nat.le_refl _),
    Nat.sub_self, htext]
  rfl

/-- A property without text has no tokens. -/
theorem eq_nil_of_runText {name : List Token} (hstart : ∀ t ∈ name.head?, StartsDeclaration t)
    (htexts : ∀ t ∈ name, t.text ≠ []) (htext : runText name = []) : name = [] := by
  obtain _ | ⟨t, name⟩ := name
  · rfl
  obtain ⟨hskip, hcomment, -⟩ := hstart t rfl
  have hblank : t.kind ≠ .whitespace := by
    intro hkind
    simp [hkind, betweenEntries] at hskip
  rw [runText_eq, joinTokens, joinFrom_text hcomment hblank] at htext
  simp only [Bool.false_and, Bool.false_eq_true, if_false, List.nil_append,
    List.append_eq_nil_iff] at htext
  exact absurd htext.1 (htexts t List.mem_cons_self)

end Tokens

/-! ## The place of a fault -/

/-- What stands at the offset of a problem in a source.  Where something is incomplete it is the
first token of that, and the end of the source if there is none. -/
def Points (source : Text) (offset : Nat) : Problem → Prop
  | .missingClose => source[offset]? = some 0x7B
  | .unexpectedClose => source[offset]? = some 0x7D
  | .unexpectedOpen => source[offset]? = some 0x7B
  | .openInValue _ => source[offset]? = some 0x7B
  | .propertyMissing => source[offset]? = some (ascii ':')
  | .atRuleInBlock keyword => source[offset]? = some (ascii '@') ∧
      ∃ t ∈ tokenize source, t.kind = .atKeyword ∧ t.text = keyword ∧ t.offset = offset
  | .expectedOpen => source[offset]? = some (ascii ';') ∨ source[offset]? = some 0x7D ∨
      ∃ before behind level pre, tokenize source = before ++ behind ∧ Leads before level ∧
        StartsPrelude level behind pre ∧ Guards preludeStops 0 pre ∧
        offset = startOf source.length pre
  | .selectorMissing => ∃ before t behind level, tokenize source = before ++ t :: behind ∧
      Leads before level ∧ level.StartsRule t ∧ offset = t.offset
  | .colonMissing => ∃ before t behind opening, tokenize source = before ++ t :: behind ∧
      Leads before (.items opening) ∧ StartsDeclaration t ∧ offset = t.offset

/-- The token that opened the block of a list is a brace before it. -/
theorem Leads.opening_mem {before : List Token} {level : Level} (hbefore : Leads before level)
    {opening : Token} (hopening : level.opening? = some opening) :
    opening ∈ before ∧ opening.kind = .leftBrace := by
  induction hbefore with
  | start => simp [Level.opening?] at hopening
  | rules _ _ ih => exact ⟨List.mem_append_left _ (ih hopening).1, (ih hopening).2⟩
  | frames _ _ ih => exact ⟨List.mem_append_left _ (ih hopening).1, (ih hopening).2⟩
  | pass _ _ ih => exact ⟨List.mem_append_left _ (ih hopening).1, (ih hopening).2⟩
  | declaration _ _ _ ih => exact ⟨List.mem_append_left _ (ih hopening).1, (ih hopening).2⟩
  | media _ _ _ hopen =>
    obtain rfl := Option.some.inj hopening
    exact ⟨by simp, hopen⟩
  | keyframes _ _ _ hopen =>
    obtain rfl := Option.some.inj hopening
    exact ⟨by simp, hopen⟩
  | rule _ _ _ _ _ hopen =>
    obtain rfl := Option.some.inj hopening
    exact ⟨by simp, hopen⟩

/-- An offset at which a token starts, or the end of the source. -/
def IsBorder (source : Text) (offset : Nat) : Prop :=
  (∃ t ∈ tokenize source, t.offset = offset) ∨ offset = source.length

theorem IsBorder.le {source : Text} {offset : Nat} (hborder : IsBorder source offset) :
    offset ≤ source.length := by
  rcases hborder with ⟨t, ht, rfl⟩ | rfl
  · exact offset_le ht
  · exact Nat.le_refl _

section Places

variable {source : Text} {before behind : List Token} {level : Level} {fault : Fault}

theorem isBorder_byte {t : Token} (ht : t ∈ tokenize source) {b : UInt8}
    (hbyte : t.kind.byte? = some b) : IsBorder source t.offset ∧ source[t.offset]? = some b :=
  ⟨.inl ⟨t, ht, rfl⟩, byte_at_offset ht hbyte⟩

theorem isBorder_startOf {us : List Token} (hus : ∀ u ∈ us, u ∈ tokenize source) :
    IsBorder source (startOf source.length us) := by
  cases us with
  | nil => exact .inr rfl
  | cons u us => exact .inl ⟨u, hus u List.mem_cons_self, rfl⟩

theorem StartsPrelude.subset {us : List Token} (hstart : StartsPrelude level behind us) :
    ∀ u ∈ us, u ∈ behind := by
  cases hstart with
  | keyword => exact fun u hu => List.mem_cons_of_mem _ hu
  | rule => exact fun u hu => hu

theorem points_of_declarationFault {t opening : Token} {ts : List Token}
    (htokens : tokenize source = before ++ t :: ts) (hbefore : Leads before (.items opening))
    (hstart : StartsDeclaration t) (hfault : DeclarationFault t ts fault) :
    IsBorder source fault.offset ∧ Points source fault.offset fault.problem := by
  have hmem : ∀ u ∈ t :: ts, u ∈ tokenize source := by
    intro u hu
    rw [htokens]
    exact List.mem_append_right _ hu
  cases hfault with
  | colon =>
    exact ⟨.inl ⟨t, hmem t List.mem_cons_self, rfl⟩, before, t, ts, opening, htokens, hbefore,
      hstart, rfl⟩
  | @property name us colon hsplit hname hcolon htext =>
    -- a property without text is empty, so the declaration starts with its colon
    have hhead : ∀ u ∈ name.head?, StartsDeclaration u := by
      intro u hu
      obtain ⟨name, rfl⟩ := List.head?_eq_some_iff.mp hu
      rwa [← (List.cons.inj hsplit).1]
    have htexts : ∀ u ∈ name, u.text ≠ [] := by
      intro u hu
      apply text_ne_nil (hmem u _)
      rw [hsplit]
      exact List.mem_append_left _ hu
    obtain rfl := eq_nil_of_runText hhead htexts htext
    obtain ⟨rfl, rfl⟩ := List.cons.inj hsplit
    exact isBorder_byte (hmem t List.mem_cons_self) (by rw [hcolon]; rfl)
  | @value name value us colon opening hsplit hname hcolon htext hguards hfree hopen =>
    have hin : opening ∈ t :: ts := by
      rw [hsplit]
      simp
    exact isBorder_byte (hmem opening hin) (by rw [hopen]; rfl)

/-- What does not belong into a list is found at the offset of its fault. -/
theorem points_of_wrong (htokens : tokenize source = before ++ behind)
    (hbefore : Leads before level) (hwrong : Wrong source.length level behind fault) :
    IsBorder source fault.offset ∧ Points source fault.offset fault.problem := by
  have hopened {opening : Token} (hopening : level.opening? = some opening) :
      IsBorder source opening.offset ∧ source[opening.offset]? = some 0x7B := by
    obtain ⟨hmem, hkind⟩ := hbefore.opening_mem hopening
    refine isBorder_byte ?_ (by rw [hkind]; rfl)
    rw [htokens]
    exact List.mem_append_left _ hmem
  have hmem : ∀ u ∈ behind, u ∈ tokenize source := by
    intro u hu
    rw [htokens]
    exact List.mem_append_right _ hu
  cases hwrong with
  | unclosed hopening => exact hopened hopening
  | unendedAtRule => exact hopened rfl
  | unendedValue => exact hopened rfl
  | close hclose => exact isBorder_byte (hmem _ List.mem_cons_self) (by rw [hclose]; rfl)
  | raw hname hraw =>
    cases hraw with
    | close hhead hclose => exact isBorder_byte (hmem _ (by simp)) (by rw [hclose]; rfl)
    | unclosed hhead hopen => exact isBorder_byte (hmem _ (by simp)) (by rw [hopen]; rfl)
  | @prelude level behind us fault hstart hprelude =>
    have hus : ∀ u ∈ us, u ∈ tokenize source := fun u hu => hmem u (hstart.subset u hu)
    cases hprelude with
    | @stopped pre us t hpre hstop =>
      have ht : t ∈ tokenize source := hus t (by simp)
      refine ⟨.inl ⟨t, ht, rfl⟩, ?_⟩
      rcases hstop with hkind | hkind
      · exact .inl (byte_at_offset ht (by rw [hkind]; rfl))
      · exact .inr (.inl (byte_at_offset ht (by rw [hkind]; rfl)))
    | unended hguards =>
      exact ⟨isBorder_startOf hus,
        .inr (.inr ⟨before, behind, level, us, htokens, hbefore, hstart, hguards, rfl⟩)⟩
  | selector hstart =>
    exact ⟨.inl ⟨_, hmem _ List.mem_cons_self, rfl⟩, before, _, _, level, htokens, hbefore, hstart,
      rfl⟩
  | atRule hkind =>
    obtain ⟨hborder, hbyte⟩ := isBorder_byte (hmem _ List.mem_cons_self) (by rw [hkind]; rfl)
    exact ⟨hborder, hbyte, _, hmem _ List.mem_cons_self, hkind, rfl, rfl⟩
  | opens hkind => exact isBorder_byte (hmem _ List.mem_cons_self) (by rw [hkind]; rfl)
  | declaration hstart hitem => exact points_of_declarationFault htokens hbefore hstart hitem

end Places

/-- A text is refused exactly when its tokens go wrong, and the error holds the place of the
offset at which they do.  That is the start of a token or the end of the text, with what the
problem points at.  Places come in the order of their offsets, so the place of the error tells
the offset. -/
theorem parse_error_points (source : Text) :
    (∀ e, parse source = .error e ↔
      ∃ offset, GoesWrong source.length [] (tokenize source) ⟨offset, e.problem⟩ ∧
        e.position = positionOf source offset) ∧
    (∀ e, parse source = .error e →
      ∃ offset ≤ source.length, e.position = positionOf source offset ∧
        (∀ offset' ≤ source.length, e.position = positionOf source offset' → offset' = offset) ∧
        ((∃ t ∈ tokenize source, t.offset = offset) ∨ offset = source.length) ∧
        Points source offset e.problem) ∧
    ∀ i j, i < j → j ≤ source.length → (positionOf source i).Before (positionOf source j) := by
  refine ⟨?_, ?_, fun i j hij hj => positionOf_before hij hj⟩
  · intro e
    rw [parse_eq_error_iff]
    constructor
    · rintro ⟨fault, hwrong, rfl⟩
      exact ⟨fault.offset, hwrong, rfl⟩
    · rintro ⟨offset, hwrong, hposition⟩
      refine ⟨_, hwrong, ?_⟩
      rw [← hposition]
  · intro e hparse
    obtain ⟨fault, ⟨run, behind, level, htokens, hleads, hwrong⟩, rfl⟩ :=
      parse_eq_error_iff.mp hparse
    obtain ⟨hborder, hpoints⟩ := points_of_wrong htokens hleads hwrong
    refine ⟨fault.offset, hborder.le, rfl, ?_, hborder, hpoints⟩
    intro offset' hoffset' hsame
    exact (eq_of_positionOf_eq hborder.le hoffset' hsame).symm

/-- A declaration without its colon, in a rule and a media query that have no end. -/
theorem parse_error_points_nested :
    ∃ e, parse (utf8 "@media x\n\x7ba\x7bb") = .error e ∧ e.position = ⟨2, 4⟩ ∧
      e.problem = .colonMissing ∧ Points (utf8 "@media x\n\x7ba\x7bb") 12 e.problem ∧
      ∀ offset ≤ 13, e.position = positionOf (utf8 "@media x\n\x7ba\x7bb") offset →
        offset = 12 := by
  obtain ⟨hiff, hpoints, -⟩ := parse_error_points (utf8 "@media x\n\x7ba\x7bb")
  have htokens : tokenize (utf8 "@media x\n\x7ba\x7bb") =
      ([] ++ ⟨.atKeyword, utf8 "@media", 0⟩ ::
          ([⟨.whitespace, utf8 " ", 6⟩, ⟨.ident, utf8 "x", 7⟩, ⟨.whitespace, utf8 "\n", 8⟩] ++
            [⟨.leftBrace, [0x7B], 9⟩]) ++
        ⟨.ident, utf8 "a", 10⟩ :: ([] ++ [⟨.leftBrace, [0x7B], 11⟩])) ++
      [⟨.ident, utf8 "b", 12⟩] := by
    decide +kernel
  have hquery : IsPrelude
      [⟨.whitespace, utf8 " ", 6⟩, ⟨.ident, utf8 "x", 7⟩, ⟨.whitespace, utf8 "\n", 8⟩] :=
    ⟨by simp [guards_cons, preludeStops], rfl⟩
  have hselector : Token.IsWord ⟨.ident, utf8 "a", 10⟩ := by decide
  have hmedia : IsMedia ⟨.atKeyword, utf8 "@media", 0⟩ := ⟨rfl, by decide +kernel⟩
  have hleads := ((Leads.start.media hmedia hquery rfl).rule
    (show Level.StartsRule (.rules (some ⟨.leftBrace, [0x7B], 9⟩)) ⟨.ident, utf8 "a", 10⟩ by
      simp [Level.StartsRule, betweenEntries]) hselector.isPrelude
    (.last (hselector.guards (by decide))) (by decide +kernel)
    (show Token.kind ⟨.leftBrace, [0x7B], 11⟩ = .leftBrace from rfl))
  have hfault : DeclarationFault ⟨.ident, utf8 "b", 12⟩ [] ⟨12, .colonMissing⟩ :=
    .colon (List.append_nil _).symm (by simp [IsProperty]) (by simp)
  have hwrong : GoesWrong 13 [] (tokenize (utf8 "@media x\n\x7ba\x7bb")) ⟨12, .colonMissing⟩ :=
    ⟨_, _, _, htokens, hleads,
      .declaration (by simp [StartsDeclaration, betweenEntries]) hfault⟩
  have hposition : positionOf (utf8 "@media x\n\x7ba\x7bb") 12 = ⟨2, 4⟩ := by decide +kernel
  have hparse := (hiff ⟨⟨2, 4⟩, .colonMissing⟩).mpr ⟨12, hwrong, hposition.symm⟩
  obtain ⟨offset, -, -, hunique, -, hpoint⟩ := hpoints _ hparse
  have hoffset : 12 = offset := hunique 12 (by decide) hposition.symm
  rw [← hoffset] at hunique hpoint
  exact ⟨_, hparse, rfl, rfl, hpoint, hunique⟩

end PixelRem.Css
