import PixelRem.Log

/-!
# Statistics of a pass

What a pass counts: the rules it visits, the pixel declarations it converts,
keeps and forces to pixels, the variant rules it adds and the rules it prunes.
-/

namespace PixelRem

/-- The counts of one pass. -/
structure Stats where
  rules : Nat := 0
  converted : Nat := 0
  kept : Nat := 0
  forced : Nat := 0
  variantRules : Nat := 0
  pruned : Nat := 0
  deriving DecidableEq, Repr

namespace Stats

/-- Adds the counts of two passes over different parts. -/
def add (a b : Stats) : Stats where
  rules := a.rules + b.rules
  converted := a.converted + b.converted
  kept := a.kept + b.kept
  forced := a.forced + b.forced
  variantRules := a.variantRules + b.variantRules
  pruned := a.pruned + b.pruned

instance : Add Stats :=
  ⟨add⟩

/-- The counts of a list of parts together. -/
def total (parts : List Stats) : Stats :=
  parts.foldr add {}

/-- The counts by name, in the order they are reported. -/
def fields (s : Stats) : List (String × Nat) :=
  [("rules", s.rules), ("converted", s.converted), ("kept", s.kept), ("forced", s.forced),
    ("variant_rules", s.variantRules), ("pruned", s.pruned)]

/-- The counts as values of a log entry. -/
def logFields (s : Stats) : List (String × LogValue) :=
  s.fields.map fun (name, n) => (name, .int n)

end Stats

end PixelRem
