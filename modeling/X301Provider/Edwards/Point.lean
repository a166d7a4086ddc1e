import X301Provider.Field.Fe301

/-!
# Edwards points in limb coordinates

Extended coordinates `(X : Y : Z : T)` of canonical elements and the affine
points cached for mixed addition. The runtime formulas work on lazily reduced
values and canonicalize each output; the compile-time formulas reduce at every
step.
-/

namespace X301Provider

def edwardsAWord : UInt32 := 2086388329
def edwardsDWord : UInt32 := 301

structure EdwardsPoint where
  x : Fe301
  y : Fe301
  z : Fe301
  t : Fe301
  deriving DecidableEq

/-- An affine point with `xy = x + y` and `dt = d * x * y`. -/
structure AffineNielsPoint where
  x : Fe301
  y : Fe301
  xy : Fe301
  dt : Fe301
  deriving DecidableEq

namespace AffineNielsPoint

def identity : AffineNielsPoint := ⟨.zero, .one, .one, .zero⟩

end AffineNielsPoint

namespace EdwardsPoint

open Fe301Lazy (fromFe301)

def identity : EdwardsPoint := ⟨.zero, .one, .one, .zero⟩

def basepoint : EdwardsPoint where
  x := .fromCanonicalWords ⟨[0x76e2adfb00c03d1f, 0x4942cad7bf841f3f, 0x5cdbb15e84b52add,
    0x3be0acb6161a2783, 0x000000003aee6839], rfl⟩
  y := .fromCanonicalWords ⟨[0x65800c5a753ff76b, 0xd7f76f6dcf3fe83c, 0x67ac249292b147f3,
    0xc8f26c9e41732255, 0x00001888d3028aa8], rfl⟩
  z := .one
  t := .fromCanonicalWords ⟨[0xf74365f44b45598d, 0x215c9ee6a9b1002e, 0xc602cc687276039c,
    0xb0246816daaa5ae2, 0x000001db90e5effb], rfl⟩

def fromAffine (x y : Fe301) : EdwardsPoint := ⟨x, y, .one, x.mul y⟩

def add (p q : EdwardsPoint) : EdwardsPoint :=
  let x := fromFe301 p.x
  let y := fromFe301 p.y
  let z := fromFe301 p.z
  let t := fromFe301 p.t
  let rx := fromFe301 q.x
  let ry := fromFe301 q.y
  let rz := fromFe301 q.z
  let rt := fromFe301 q.t
  let xx := x.mul rx
  let yy := y.mul ry
  let dt := (t.mulSmall edwardsDWord).mul rt
  let zz := z.mul rz
  let cross := ((x.addLoose y).mul (rx.addLoose ry)).subLoose (xx.addLoose yy).tighten
  let difference := zz.subLoose dt
  let sum := zz.addLoose dt
  let twisted := yy.subLoose (xx.mulSmall edwardsAWord)
  { x := (cross.mul difference).canonical
    y := (sum.mul twisted).canonical
    z := (difference.mul sum).canonical
    t := (cross.mul twisted).canonical }

def addAffine (p : EdwardsPoint) (q : AffineNielsPoint) : EdwardsPoint :=
  let x := fromFe301 p.x
  let y := fromFe301 p.y
  let z := fromFe301 p.z
  let t := fromFe301 p.t
  let xx := x.mul (fromFe301 q.x)
  let yy := y.mul (fromFe301 q.y)
  let dt := t.mul (fromFe301 q.dt)
  let cross := ((x.addLoose y).mulTight (fromFe301 q.xy)).subLoose (xx.addLoose yy).tighten
  let difference := z.subLoose dt
  let sum := z.addLoose dt
  let twisted := yy.subLoose (xx.mulSmall edwardsAWord)
  { x := (cross.mul difference).canonical
    y := (sum.mul twisted).canonical
    z := (difference.mul sum).canonical
    t := (cross.mul twisted).canonical }

def double (p : EdwardsPoint) : EdwardsPoint :=
  let x := fromFe301 p.x
  let y := fromFe301 p.y
  let z := fromFe301 p.z
  let xx := x.square
  let yy := y.square
  let zz := z.square
  let twoZz := (zz.addLoose zz).tighten
  let twistedXx := xx.mulSmall edwardsAWord
  let cross := (x.addLoose y).square.subLoose (xx.addLoose yy).tighten
  let sum := twistedXx.addLoose yy
  let difference := sum.tighten.subLoose twoZz
  let twistedDifference := twistedXx.subLoose yy
  { x := (cross.mul difference).canonical
    y := (sum.mul twistedDifference).canonical
    z := (difference.mul sum).canonical
    t := (cross.mul twistedDifference).canonical }

def addConst (p q : EdwardsPoint) : EdwardsPoint :=
  let xx := p.x.mulConst q.x
  let yy := p.y.mulConst q.y
  let dt := (p.t.mulSmallConst edwardsDWord).mulConst q.t
  let zz := p.z.mulConst q.z
  let cross := (((p.x.addConst p.y).mulConst (q.x.addConst q.y)).subConst xx).subConst yy
  let difference := zz.subConst dt
  let sum := zz.addConst dt
  let twisted := yy.subConst (xx.mulSmallConst edwardsAWord)
  { x := cross.mulConst difference
    y := sum.mulConst twisted
    z := difference.mulConst sum
    t := cross.mulConst twisted }

def doubleConst (p : EdwardsPoint) : EdwardsPoint :=
  let xx := p.x.squareConst
  let yy := p.y.squareConst
  let zz := p.z.squareConst
  let twoZz := zz.addConst zz
  let twistedXx := xx.mulSmallConst edwardsAWord
  let cross := (((p.x.addConst p.y).squareConst).subConst xx).subConst yy
  let sum := twistedXx.addConst yy
  let difference := sum.subConst twoZz
  let twistedDifference := twistedXx.subConst yy
  { x := cross.mulConst difference
    y := sum.mulConst twistedDifference
    z := difference.mulConst sum
    t := cross.mulConst twistedDifference }

/-- The inverse `(-x, y)`. -/
def negate (p : EdwardsPoint) : EdwardsPoint := ⟨p.x.neg, p.y, p.z, p.t.neg⟩

def isIdentity (p : EdwardsPoint) : Bool := p.x.isZero && p.y.ctEq p.z

def multiplyByCofactor (p : EdwardsPoint) : EdwardsPoint := p.double.double

def ctEq (p q : EdwardsPoint) : Bool :=
  (p.x.mul q.z).ctEq (q.x.mul p.z) && (p.y.mul q.z).ctEq (q.y.mul p.z)

def isValid (p : EdwardsPoint) : Bool :=
  let xx := p.x.square
  let yy := p.y.square
  let zz := p.z.square
  let extendedRelation := (p.x.mul p.y).ctEq (p.z.mul p.t)
  let left := ((xx.mulSmall edwardsAWord).mul zz).add (yy.mul zz)
  let right := zz.square.add ((xx.mulSmall edwardsDWord).mul yy)
  !p.z.isZero && extendedRelation && left.ctEq right

def conditionalSelect (whenFalse whenTrue : EdwardsPoint) (choice : Bool) : EdwardsPoint where
  x := .conditionalSelect whenFalse.x whenTrue.x choice
  y := .conditionalSelect whenFalse.y whenTrue.y choice
  z := .conditionalSelect whenFalse.z whenTrue.z choice
  t := .conditionalSelect whenFalse.t whenTrue.t choice

end EdwardsPoint

namespace AffineNielsPoint

def fromProjective (point : EdwardsPoint) (inverseZ : Fe301) : AffineNielsPoint :=
  let x := point.x.mul inverseZ
  let y := point.y.mul inverseZ
  ⟨x, y, x.add y, (x.mul y).mulSmall edwardsDWord⟩

def fromProjectiveConst (point : EdwardsPoint) (inverseZ : Fe301) : AffineNielsPoint :=
  let x := point.x.mulConst inverseZ
  let y := point.y.mulConst inverseZ
  ⟨x, y, x.addConst y, (x.mulConst y).mulSmallConst edwardsDWord⟩

def negate (p : AffineNielsPoint) : AffineNielsPoint :=
  let x := p.x.neg
  ⟨x, p.y, x.add p.y, p.dt.neg⟩

def conditionalSelect (whenFalse whenTrue : AffineNielsPoint) (choice : Bool) :
    AffineNielsPoint where
  x := .conditionalSelect whenFalse.x whenTrue.x choice
  y := .conditionalSelect whenFalse.y whenTrue.y choice
  xy := .conditionalSelect whenFalse.xy whenTrue.xy choice
  dt := .conditionalSelect whenFalse.dt whenTrue.dt choice

end AffineNielsPoint

end X301Provider
