/-!
# Pass rates

    A pass rate is a percentage, computed with 53 significant bits: first the
    share is rounded to them, then a hundred times the share. Its text has
    four decimals. Every rounding goes to the nearest value and from the
    middle to the even one.
-/

namespace Evm.Fixture

/-- The quotient rounded to the nearest whole number, from the middle to the
    even one. -/
def roundedQuotient (n d : Nat) : Nat :=
  let q := n / d
  let r := n % d
  if 2 * r < d ∨ (2 * r = d ∧ q % 2 = 0) then q else q + 1

/-- A rate: `mantissa / 2 ^ scale`. -/
structure Rate where
  mantissa : Nat
  scale : Nat
  deriving DecidableEq

namespace Rate

/-- The fraction `n / d` with 53 significant bits. It may not be larger than
    those bits can count. -/
def ofFraction (n d : Nat) : Rate :=
  if n = 0 then ⟨0, 0⟩
  else
    let wide := 53 + d.log2 - n.log2
    let scale := if n <<< wide / d < 0x20000000000000 then wide else wide - 1
    ⟨roundedQuotient (n <<< scale) d, scale⟩

/-- The share of `part` in `whole` as a percentage; everything of nothing. -/
def percentage (part whole : Nat) : Rate :=
  if whole = 0 then ⟨100, 0⟩
  else
    let share := ofFraction part whole
    ofFraction (100 * share.mantissa) (1 <<< share.scale)

/-- A rate in decimal with four places. -/
def text (rate : Rate) : String :=
  let n := roundedQuotient (10000 * rate.mantissa) (1 <<< rate.scale)
  let places := toString (n % 10000)
  s!"{n / 10000}." ++ String.ofList (List.replicate (4 - places.length) '0') ++ places

end Rate

end Evm.Fixture
