import Mathlib
import PixelRem.Run.Output
import PixelRem.Run.Scan
import PixelRem.Proofs.Paths
import PixelRem.Proofs.Numerals

/-!
# The names of sheets

The files that sheets are written to are named in one place and recognised in another.  A path
is recognised by how its text ends (`isGenerated_iff`), which its last name decides alone
(`isGenerated_of_endsIn`).  A sheet is named by the stem of its source and a suffix, which is
the same for every stylesheet (`suffixes_of_sheets`): `rem`, or the digits of a positive ratio
and an `x`.  So every name that is given is recognised (`isGenerated_sheetName`).
-/

namespace PixelRem

open PixelRem.Path (IsName IsPart EndsIn)

/-! ## Generated endings -/

/-- What stands between the last two dots of a generated name. -/
inductive IsSheetKind : List Char → Prop
  | rem : IsSheetKind ['r', 'e', 'm']
  | ratio {digits : List Char} (hne : digits ≠ []) (hdigits : ∀ d ∈ digits, d.isDigit = true) :
    IsSheetKind (digits ++ ['x'])

/-- The ending of every generated name. -/
def sheetEnding : List Char :=
  ['.', 'c', 's', 's']

theorem isGenerated_iff {path : String} :
    isGenerated path = true ↔
      ∃ before kind, IsSheetKind kind ∧ path.toList = before ++ '.' :: (kind ++ sheetEnding) := by
  constructor
  · intro hgenerated
    rw [isGenerated] at hgenerated
    split at hgenerated
    · rename_i rest hrev
      refine ⟨rest.reverse, _, .rem, ?_⟩
      rw [← List.reverse_reverse path.toList, hrev]
      simp [sheetEnding]
    · rename_i s hrev
      rw [Bool.and_eq_true, Bool.not_eq_true', beq_iff_eq] at hgenerated
      obtain ⟨hdigits, hdot⟩ := hgenerated
      obtain ⟨rest, hrest⟩ : ∃ rest, s.dropWhile Char.isDigit = '.' :: rest := by
        cases hdrop : s.dropWhile Char.isDigit with
        | nil => rw [hdrop] at hdot; exact absurd hdot (by simp)
        | cons c rest =>
          rw [hdrop, List.head?_cons, Option.some.injEq] at hdot
          exact ⟨rest, by rw [hdot]⟩
      have hsplit : s = s.takeWhile Char.isDigit ++ '.' :: rest := by
        rw [← hrest, List.takeWhile_append_dropWhile]
      refine ⟨rest.reverse, (s.takeWhile Char.isDigit).reverse ++ ['x'], .ratio ?_ ?_, ?_⟩
      · simpa using hdigits
      · intro d hd
        exact List.mem_takeWhile_imp (List.mem_reverse.mp hd)
      · have hreverse : s.reverse = rest.reverse ++ '.' :: (s.takeWhile Char.isDigit).reverse := by
          conv_lhs => rw [hsplit]
          simp
        rw [← List.reverse_reverse path.toList, hrev]
        simp [sheetEnding, hreverse]
    · exact absurd hgenerated (by decide)
  · rintro ⟨before, kind, hkind, hpath⟩
    rw [isGenerated, hpath]
    cases hkind with
    | rem => simp [sheetEnding]
    | @ratio digits hne hdigits =>
      have hrev : (before ++ '.' :: (digits ++ ['x'] ++ sheetEnding)).reverse =
          's' :: 's' :: 'c' :: '.' :: 'x' :: (digits.reverse ++ '.' :: before.reverse) := by
        simp [sheetEnding]
      have hrun : ∀ d ∈ digits.reverse, d.isDigit = true := fun d hd =>
        hdigits d (List.mem_reverse.mp hd)
      have htake : (digits.reverse ++ '.' :: before.reverse).takeWhile Char.isDigit =
          digits.reverse := by
        rw [List.takeWhile_append_of_pos hrun, List.takeWhile_cons_of_neg (by decide),
          List.append_nil]
      have hdrop : (digits.reverse ++ '.' :: before.reverse).dropWhile Char.isDigit =
          '.' :: before.reverse := by
        rw [List.dropWhile_append_of_pos hrun, List.dropWhile_cons_of_neg (by decide)]
      rw [hrev]
      simp only [htake, hdrop]
      simpa using hne

theorem IsSheetKind.slash_not_mem {kind : List Char} (hkind : IsSheetKind kind) :
    '/' ∉ '.' :: (kind ++ sheetEnding) := by
  cases hkind with
  | rem => decide
  | @ratio digits hne hdigits =>
    have hslash : '/' ∉ digits := fun h => absurd (hdigits '/' h) (by decide)
    simp [sheetEnding, hslash]

/-- Whether a path is recognised is decided by its last name. -/
theorem isGenerated_of_endsIn {p name : String} (hend : EndsIn p name) :
    isGenerated p = isGenerated name := by
  rcases hend with rfl | ⟨before, rfl⟩
  · rfl
  have hlist : (before ++ "/" ++ name).toList = (before.toList ++ ['/']) ++ name.toList := by simp
  rw [Bool.eq_iff_iff, isGenerated_iff, isGenerated_iff, hlist]
  constructor
  · rintro ⟨front, kind, hkind, hsplit⟩
    -- the ending has no slash, so it lies behind the last one
    rcases List.append_eq_append_iff.mp hsplit with ⟨middle, -, hname⟩ | ⟨middle, hfront, hending⟩
    · exact ⟨middle, kind, hkind, hname⟩
    · rcases List.eq_nil_or_concat middle with rfl | ⟨rest, last, rfl⟩
      · exact ⟨[], kind, hkind, hending.symm⟩
      · have hlast : last = '/' := by
          have hends := congrArg List.getLast? hfront
          rw [List.concat_eq_append, ← List.append_assoc, List.getLast?_concat,
            List.getLast?_concat] at hends
          exact (Option.some.inj hends).symm
        have hmem : '/' ∈ '.' :: (kind ++ sheetEnding) := by
          rw [hending, hlast]
          simp
        exact absurd hmem hkind.slash_not_mem
  · rintro ⟨front, kind, hkind, hname⟩
    exact ⟨before.toList ++ ['/'] ++ front, kind, hkind, by rw [hname]; simp⟩

/-! ## Suffixes -/

/-- A suffix, with the dot before it, ends in a dot and the kind of a sheet. -/
structure IsSuffix (suffix : String) : Prop where
  slash_not_mem : '/' ∉ suffix.toList
  kind : ∃ before kind, IsSheetKind kind ∧ '.' :: suffix.toList = before ++ '.' :: kind

theorem isSuffix_rem : IsSuffix remSuffix :=
  ⟨by decide, [], _, .rem, by decide⟩

/-- The plain text of a natural number and a power of ten is a run of digits, or two with a
point between them. -/
theorem placePoint_digits (n places : Nat) :
    ∃ whole, IsDigits whole ∧ (Decimal.placePoint n places = whole ∨
      ∃ fraction, IsDigits fraction ∧
        Decimal.placePoint n places = whole ++ ascii '.' :: fraction) := by
  have hnumeral := isNumeral_placePoint n places
  generalize Decimal.placePoint n places = text at hnumeral ⊢
  generalize (n / 10 ^ places : ℚ) = number at hnumeral
  cases hnumeral with
  | whole hdigits => exact ⟨_, hdigits, .inl rfl⟩
  | fraction hwhole hfraction => exact ⟨_, hwhole, .inr ⟨_, hfraction, rfl⟩⟩

theorem isDigit_ofNat_toNat {b : UInt8} (hb : Byte.isDigit b = true) :
    (Char.ofNat b.toNat).isDigit = true := by
  rw [Byte.isDigit, Bool.and_eq_true, decide_eq_true_eq, decide_eq_true_eq,
    UInt8.le_iff_toNat_le, UInt8.le_iff_toNat_le] at hb
  obtain ⟨hlow, hhigh⟩ := hb
  change 48 ≤ b.toNat at hlow
  change b.toNat ≤ 57 at hhigh
  generalize b.toNat = n at hlow hhigh
  interval_cases n <;> rfl

theorem isSuffix_ratio {dpr : Binary64} {ratio : Decimal} (hratio : dpr.positive? = some ratio) :
    IsSuffix (ratioSuffix dpr) := by
  obtain ⟨n, places, hplain⟩ : ∃ n places, dpr.toPlain = Decimal.placePoint n places := by
    cases dpr with
    | nan => exact absurd hratio (by simp [Binary64.positive?])
    | infinite negative => exact absurd hratio (by simp [Binary64.positive?])
    | finite negative mantissa exponent hformat =>
      cases negative with
      | true => exact absurd hratio (by simp [Binary64.positive?])
      | false =>
        have hnonneg : ¬((Binary64.shortest mantissa exponent).1 : Int) < 0 := by omega
        refine ⟨((Binary64.shortest mantissa exponent).1 : Int).natAbs *
          pow10 (Binary64.shortest mantissa exponent).2.toNat,
          (-(Binary64.shortest mantissa exponent).2).toNat, ?_⟩
        change Decimal.toText ⟨(Binary64.shortest mantissa exponent).1,
          (Binary64.shortest mantissa exponent).2⟩ = _
        rw [Decimal.toText, if_neg hnonneg]
        rfl
  obtain ⟨toChar, htoChar⟩ : ∃ f : UInt8 → Char, f = fun b => Char.ofNat b.toNat := ⟨_, rfl⟩
  have hchars : (ratioSuffix dpr).toList = (Decimal.placePoint n places).map toChar ++ ['x'] := by
    rw [ratioSuffix, hplain, Text.asciiString, String.toList_append, String.toList_ofList, htoChar]
    rfl
  have hdigit : ∀ {run : Text}, IsDigits run → run.map toChar ≠ [] ∧
      ∀ d ∈ run.map toChar, d.isDigit = true := by
    intro run hrun
    refine ⟨by simpa using hrun.1, ?_⟩
    intro d hd
    obtain ⟨b, hb, rfl⟩ := List.mem_map.mp hd
    rw [htoChar]
    exact isDigit_ofNat_toNat (hrun.2 b hb)
  have hslash : ∀ {run : Text}, IsDigits run → '/' ∉ run.map toChar := by
    intro run hrun hmem
    exact absurd ((hdigit hrun).2 '/' hmem) (by decide)
  have hpoint : toChar (ascii '.') = '.' := by
    rw [htoChar]
    decide
  obtain ⟨whole, hwhole, htext | ⟨fraction, hfraction, htext⟩⟩ := placePoint_digits n places
  · rw [htext] at hchars
    have hkind := IsSheetKind.ratio (hdigit hwhole).1 (hdigit hwhole).2
    exact ⟨by rw [hchars]; simpa using hslash hwhole, [], _, hkind, by rw [hchars]; rfl⟩
  · rw [htext, List.map_append, List.map_cons, hpoint] at hchars
    have hkind := IsSheetKind.ratio (hdigit hfraction).1 (hdigit hfraction).2
    refine ⟨?_, '.' :: whole.map toChar, _, hkind, ?_⟩
    · rw [hchars, List.mem_append, List.mem_append, List.mem_cons]
      rintro ((h | h | h) | h)
      · exact hslash hwhole h
      · exact absurd h (by decide)
      · exact hslash hfraction h
      · exact absurd h (by decide)
    · rw [hchars]
      simp

/-! ## Names -/

/-- The name of the file that a sheet is written to. -/
def sheetName (stem suffix : String) : String :=
  stem ++ "." ++ suffix ++ ".css"

theorem toList_sheetName (stem suffix : String) :
    (sheetName stem suffix).toList = stem.toList ++ '.' :: (suffix.toList ++ sheetEnding) := by
  simp [sheetName, sheetEnding]

theorem sheetPath_eq (directory stem suffix : String) :
    sheetPath directory stem suffix = Path.join directory (sheetName stem suffix) := rfl

theorem isGenerated_sheetName (stem : String) {suffix : String} (hsuffix : IsSuffix suffix) :
    isGenerated (sheetName stem suffix) = true := by
  obtain ⟨before, kind, hkind, hsplit⟩ := hsuffix.kind
  rw [isGenerated_iff, toList_sheetName]
  refine ⟨stem.toList ++ before, kind, hkind, ?_⟩
  rw [List.append_assoc, ← List.cons_append, hsplit, List.append_assoc, List.cons_append]

theorem isName_sheetName {stem suffix : String} (hstem : '/' ∉ stem.toList)
    (hsuffix : IsSuffix suffix) : IsName (sheetName stem suffix) := by
  have hlength : 5 ≤ (sheetName stem suffix).toList.length := by
    rw [toList_sheetName, List.length_append, List.length_cons, List.length_append]
    simp [sheetEnding]
    omega
  have hother {short : String} (hshort : short.toList.length < 5) :
      sheetName stem suffix ≠ short := by
    intro h
    rw [h] at hlength
    omega
  refine ⟨⟨hother (by decide), ?_⟩, hother (by decide), hother (by decide)⟩
  rw [toList_sheetName]
  simp [hstem, hsuffix.slash_not_mem, sheetEnding]

/-- The stem of a path has no slash, if the path has a name or no text. -/
theorem slash_not_mem_stem {path : String} (hpath : Path.names path ≠ [] ∨ path = "") :
    '/' ∉ (Path.stem path).toList := by
  have hbase : '/' ∉ (Path.base path).toList := by
    rw [Path.base]
    cases hlast : (Path.names path).getLast? with
    | some name => exact (Path.isPart_of_mem_names (List.mem_of_getLast? hlast)).2
    | none =>
      rw [List.getLast?_eq_none_iff] at hlast
      rcases hpath with hne | rfl
      · exact absurd hlast hne
      · decide
  rw [Path.stem]
  split_ifs
  · rw [String.toList_ofList]
    exact fun h => hbase (List.mem_of_mem_take h)
  · rwa [String.ofList_toList]

/-! ## The sheets of a stylesheet -/

/-- The ratio of a sheet, which zero leaves to the default. -/
def effectiveRatio (dpr : Binary64) : Binary64 :=
  if dpr.isZero then .ofNat defaultRatio else dpr

/-- The suffixes of the sheets of a mode, in the order they are written. -/
def Mode.suffixes (mode : Mode) (dpr : Binary64) : List String :=
  match mode with
  | .rem => [remSuffix]
  | .three => [ratioSuffix (effectiveRatio dpr)]
  | .all => ["1x", "2x", "3x", remSuffix]

theorem map_suffix_filterMap (sheets : List NamedSheet) {names : List String}
    (hnames : ∀ n ∈ names, n ∈ sheets.map (·.suffix)) :
    (names.filterMap fun suffix => sheets.find? (·.suffix == suffix)).map (·.suffix) = names := by
  induction names with
  | nil => rfl
  | cons n names ih =>
    obtain ⟨sheet, hsheet, hsuffix⟩ := List.mem_map.mp (hnames n List.mem_cons_self)
    have hsome : (sheets.find? (·.suffix == n)).isSome = true := by
      rw [List.find?_isSome]
      exact ⟨sheet, hsheet, by simpa using hsuffix⟩
    obtain ⟨found, hfound⟩ := Option.isSome_iff_exists.mp hsome
    have hsame : found.suffix = n := by simpa using List.find?_some hfound
    rw [List.filterMap_cons, hfound, List.map_cons, hsame,
      ih fun m hm => hnames m (List.mem_cons_of_mem n hm)]

theorem map_suffix_sortedSheets (sheets : List NamedSheet) :
    (sortedSheets sheets).map (·.suffix) = sortedNames (sheets.map (·.suffix)) := by
  apply map_suffix_filterMap
  intro n hn
  rwa [sortedNames, List.mem_eraseDups, List.mem_mergeSort] at hn

theorem generatePixel_dpr {c : Converter} {css : Text} {dpr : Binary64} {sheet : PixelSheet}
    (hsheet : c.generatePixel css dpr = .ok sheet) :
    sheet.dpr = effectiveRatio dpr ∧ ∃ ratio, (effectiveRatio dpr).positive? = some ratio := by
  rw [Converter.generatePixel] at hsheet
  split at hsheet
  · exact absurd hsheet (by simp)
  · rename_i ratio hratio
    split at hsheet
    · exact absurd hsheet (by simp)
    · rw [← Except.ok.inj hsheet]
      exact ⟨rfl, ratio, hratio⟩

theorem except_bind_eq_ok {ε α β : Type} {x : Except ε α} {f : α → Except ε β} {b : β} :
    (x >>= f) = .ok b ↔ ∃ a, x = .ok a ∧ f a = .ok b := by
  cases x with
  | error e => simp [bind, Except.bind]
  | ok a => simp [bind, Except.bind]

/-- What each result shows of its source shows in a list of them. -/
theorem map_of_mapM_eq_ok {ε α β γ : Type} {f : α → Except ε β} {g : β → γ} {h : α → γ}
    (hf : ∀ a b, f a = .ok b → g b = h a) {xs : List α} {ys : List β}
    (hys : xs.mapM f = .ok ys) : ys.map g = xs.map h := by
  induction xs generalizing ys with
  | nil =>
    rw [List.mapM_nil] at hys
    rw [← Except.ok.inj hys]
    rfl
  | cons x xs ih =>
    rw [List.mapM_cons, except_bind_eq_ok] at hys
    obtain ⟨y, hy, hys⟩ := hys
    rw [except_bind_eq_ok] at hys
    obtain ⟨rest, hrest, hys⟩ := hys
    rw [← Except.ok.inj hys, List.map_cons, List.map_cons, hf x y hy, ih hrest]

theorem generateAll_ratios {c : Converter} {css : Text} {set : SheetSet}
    (hset : c.generateAll css = .ok set) :
    set.pixel.map (fun pair => ratioSuffix pair.2.dpr) =
      ratios.map fun n => ratioSuffix (effectiveRatio (.ofNat n)) := by
  rw [Converter.generateAll, except_bind_eq_ok] at hset
  obtain ⟨rem, -, hset⟩ := hset
  rw [except_bind_eq_ok] at hset
  obtain ⟨pixel, hpixel, hset⟩ := hset
  rw [← Except.ok.inj hset]
  apply map_of_mapM_eq_ok _ hpixel
  intro n pair hpair
  split at hpair
  · rename_i sheet hsheet
    rw [← Except.ok.inj hpair, (generatePixel_dpr hsheet).1]
  · exact absurd hpair (by simp)

/-- The suffixes of the sheets do not depend on the stylesheet. -/
theorem suffixes_of_sheets {c : Converter} {mode : Mode} {dpr : Binary64} {css : Text}
    {sheets : List NamedSheet} {log : List LogEntry}
    (hsheets : c.sheets mode dpr css = .ok (sheets, log)) :
    sheets.map (·.suffix) = mode.suffixes dpr ∧ ∀ suffix ∈ mode.suffixes dpr, IsSuffix suffix := by
  cases mode with
  | rem =>
    rw [Converter.sheets, except_bind_eq_ok] at hsheets
    obtain ⟨sheet, -, hsheets⟩ := hsheets
    obtain ⟨rfl, -⟩ := Prod.mk.inj (Except.ok.inj hsheets)
    refine ⟨rfl, ?_⟩
    intro suffix hsuffix
    rw [List.mem_singleton.mp hsuffix]
    exact isSuffix_rem
  | three =>
    rw [Converter.sheets, except_bind_eq_ok] at hsheets
    obtain ⟨sheet, hsheet, hsheets⟩ := hsheets
    obtain ⟨rfl, -⟩ := Prod.mk.inj (Except.ok.inj hsheets)
    obtain ⟨hdpr, ratio, hratio⟩ := generatePixel_dpr hsheet
    constructor
    · rw [List.map_cons, List.map_nil, hdpr]
      rfl
    · intro suffix hsuffix
      rw [List.mem_singleton.mp hsuffix]
      exact isSuffix_ratio hratio
  | all =>
    rw [Converter.sheets, except_bind_eq_ok] at hsheets
    obtain ⟨set, hset, hsheets⟩ := hsheets
    obtain ⟨rfl, -⟩ := Prod.mk.inj (Except.ok.inj hsheets)
    have hratios : ratios.map (fun n => ratioSuffix (effectiveRatio (.ofNat n))) =
        ["1x", "2x", "3x"] := by
      decide +kernel
    constructor
    · have hpixel := (generateAll_ratios hset).trans hratios
      rw [map_suffix_sortedSheets, List.map_cons, List.map_map]
      change sortedNames (remSuffix :: set.pixel.map fun pair => ratioSuffix pair.2.dpr) = _
      rw [hpixel]
      cbv
    · intro suffix hsuffix
      rcases List.mem_append.mp (show suffix ∈ ["1x", "2x", "3x"] ++ [remSuffix] from hsuffix)
        with hmem | hmem
      · rw [← hratios] at hmem
        obtain ⟨n, hn, rfl⟩ := List.mem_map.mp hmem
        have hpositive : ∀ n ∈ ratios, ((effectiveRatio (.ofNat n)).positive?).isSome = true := by
          decide +kernel
        obtain ⟨ratio, hratio⟩ := Option.isSome_iff_exists.mp (hpositive n hn)
        exact isSuffix_ratio hratio
      · rw [List.mem_singleton.mp hmem]
        exact isSuffix_rem

end PixelRem
