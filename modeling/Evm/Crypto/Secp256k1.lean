/-!
# The curve secp256k1

    The curve `y² = x³ + 7` over the field of `p` elements, and its group of
    prime order `n`. Field elements are numbers below `p`. Points are kept in
    Jacobian form, so that adding them takes no division: `(x, y, z)` stands
    for the affine point `(x / z², y / z³)`, and `z = 0` for the point at
    infinity.
-/

namespace Evm.Crypto.Secp256k1

/-! ## Arithmetic modulo a prime -/

/-- The order of the field. -/
def p : Nat := 0xfffffffffffffffffffffffffffffffffffffffffffffffffffffffefffffc2f

/-- The order of the group. -/
def n : Nat := 0xfffffffffffffffffffffffffffffffebaaedce6af48a03bbfd25e8cd0364141

/-- The power `base ^ e` modulo `m`, for `e` of at most `bits` bits. -/
def powMod (m base : Nat) : (bits e : Nat) → Nat
  | 0, _ => 1 % m
  | bits + 1, e =>
    let half := powMod m base bits (e / 2)
    let square := half * half % m
    if e % 2 = 1 then square * base % m else square

/-- The inverse modulo a prime below `2 ^ 256`; zero for zero. -/
def inverse (m a : Nat) : Nat := powMod m a 256 (m - 2)

/-- The difference `a - b` in the field, for `a` and `b` in the field. -/
def sub (a b : Nat) : Nat := (a + p - b) % p

/-- A square root of `a` in the field, if there is one. The order of the
    field is three modulo four, so a power of `a` is the only candidate up
    to its sign. -/
def sqrt? (a : Nat) : Option Nat :=
  let r := powMod p a 256 ((p + 1) / 4)
  if r * r % p = a then some r else none

/-! ## Points -/

/-- A point of the curve in Jacobian form. -/
structure Point where
  x : Nat
  y : Nat
  z : Nat
  deriving DecidableEq

/-- The point at infinity, the neutral element of the group. -/
def Point.infinity : Point := ⟨1, 1, 0⟩

/-- A point given by its affine coordinates. -/
def Point.affine (x y : Nat) : Point := ⟨x, y, 1⟩

/-- The generator of the group. -/
def generator : Point :=
  .affine 0x79be667ef9dcbbac55a06295ce870b07029bfcdb2dce28d959f2815b16f81798
    0x483ada7726a3c4655da4fbfc0e1108a8fd17b448a68554199c47d08ffb10d4b8

/-- Twice a point. -/
def Point.double (a : Point) : Point :=
  if a.z = 0 ∨ a.y = 0 then .infinity
  else
    let yy := a.y * a.y % p
    let s := 4 * a.x * yy % p
    let m := 3 * a.x * a.x % p
    let x := sub (m * m % p) (2 * s % p)
    let y := sub (m * sub s x % p) (8 * yy * yy % p)
    ⟨x, y, 2 * a.y * a.z % p⟩

/-- The sum of two points. -/
def Point.add (a b : Point) : Point :=
  if a.z = 0 then b
  else if b.z = 0 then a
  else
    let za := a.z * a.z % p
    let zb := b.z * b.z % p
    let ua := a.x * zb % p
    let ub := b.x * za % p
    let sa := a.y * zb * b.z % p
    let sb := b.y * za * a.z % p
    let h := sub ub ua
    let r := sub sb sa
    if h = 0 then
      -- one x coordinate: the same point, or a point and its negative
      if r = 0 then a.double else .infinity
    else
      let hh := h * h % p
      let hhh := hh * h % p
      let v := ua * hh % p
      let x := sub (sub (r * r % p) hhh) (2 * v % p)
      let y := sub (r * sub v x % p) (sa * hhh % p)
      ⟨x, y, a.z * b.z * h % p⟩

/-- The `k`-fold sum of a point, for `k` of at most `bits` bits. -/
def Point.multiple (a : Point) : (bits k : Nat) → Point
  | 0, _ => .infinity
  | bits + 1, k =>
    let twice := (a.multiple bits (k / 2)).double
    if k % 2 = 1 then twice.add a else twice

/-- The affine coordinates of a point other than infinity. -/
def Point.coordinates? (a : Point) : Option (Nat × Nat) :=
  if a.z = 0 then none
  else
    let inv := inverse p a.z
    let inv2 := inv * inv % p
    some (a.x * inv2 % p, a.y * inv2 * inv % p)

/-- The point of the curve with a given x coordinate below `p` and a given
    parity of its y coordinate. -/
def liftX? (x : Nat) (odd : Bool) : Option Point :=
  if p ≤ x then none
  else
    (sqrt? ((x * x * x + 7) % p)).map fun y =>
      .affine x (if (y % 2 == 1) == odd then y else sub 0 y)

end Evm.Crypto.Secp256k1
