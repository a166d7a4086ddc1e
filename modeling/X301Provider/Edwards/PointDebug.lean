import X301Provider.Edwards.Completeness
import X301Provider.Field.LazyDebug

/-!
# The runtime point formulas of a debug build

The three lazy formulas on canonical coordinates, on the curve or off it.
-/

namespace X301Provider

structure AffineNielsPoint.Canonical (p : AffineNielsPoint) : Prop where
  x : p.x.Canonical
  y : p.y.Canonical
  xy : p.xy.Canonical
  dt : p.dt.Canonical

namespace EdwardsPoint

open Fe301Lazy (fromFe301 repr_fromFe301)

variable {p q : EdwardsPoint}

/-- The four products that end every formula. -/
def productsDebug (cross difference sum twisted : Fe301LazyLinear) : Debug EdwardsPoint := do
  let x ← cross.mulDebug difference
  let y ← sum.mulDebug twisted
  let z ← difference.mulDebug sum
  let t ← cross.mulDebug twisted
  pure ⟨x.canonical, y.canonical, z.canonical, t.canonical⟩

theorem productsDebug_agrees {cross difference sum twisted : Fe301LazyLinear} {a b c d : Fp}
    (hCross : cross.Repr a) (hDifference : difference.Repr b) (hSum : sum.Repr c)
    (hTwisted : twisted.Repr d) :
    Debug.Agrees (productsDebug cross difference sum twisted)
      ⟨(cross.mul difference).canonical, (sum.mul twisted).canonical,
        (difference.mul sum).canonical, (cross.mul twisted).canonical⟩ :=
  (Fe301LazyLinear.mulDebug_agrees hCross hDifference).bind <|
    (Fe301LazyLinear.mulDebug_agrees hSum hTwisted).bind <|
    (Fe301LazyLinear.mulDebug_agrees hDifference hSum).bind <|
    (Fe301LazyLinear.mulDebug_agrees hCross hTwisted).bind <|
    .pure _

def addDebug (p q : EdwardsPoint) : Debug EdwardsPoint := do
  let x ← Debug.lazy (fromFe301 p.x)
  let y ← Debug.lazy (fromFe301 p.y)
  let z ← Debug.lazy (fromFe301 p.z)
  let t ← Debug.lazy (fromFe301 p.t)
  let rx ← Debug.lazy (fromFe301 q.x)
  let ry ← Debug.lazy (fromFe301 q.y)
  let rz ← Debug.lazy (fromFe301 q.z)
  let rt ← Debug.lazy (fromFe301 q.t)
  let xx ← x.mulDebug rx
  let yy ← y.mulDebug ry
  let dt ← (← t.mulSmallDebug edwardsDWord).mulDebug rt
  let zz ← z.mulDebug rz
  let product ← (← x.addLooseDebug y).mulDebug (← rx.addLooseDebug ry)
  let cross ← product.subLooseDebug (← (← xx.addLooseDebug yy).tightenDebug)
  let difference ← zz.subLooseDebug dt
  let sum ← zz.addLooseDebug dt
  let twisted ← yy.subLooseDebug (← xx.mulSmallDebug edwardsAWord)
  productsDebug cross difference sum twisted

def addAffineDebug (p : EdwardsPoint) (q : AffineNielsPoint) : Debug EdwardsPoint := do
  let x ← Debug.lazy (fromFe301 p.x)
  let y ← Debug.lazy (fromFe301 p.y)
  let z ← Debug.lazy (fromFe301 p.z)
  let t ← Debug.lazy (fromFe301 p.t)
  let xx ← x.mulDebug (← Debug.lazy (fromFe301 q.x))
  let yy ← y.mulDebug (← Debug.lazy (fromFe301 q.y))
  let dt ← t.mulDebug (← Debug.lazy (fromFe301 q.dt))
  let product ← (← x.addLooseDebug y).mulTightDebug (← Debug.lazy (fromFe301 q.xy))
  let cross ← product.subLooseDebug (← (← xx.addLooseDebug yy).tightenDebug)
  let difference ← z.subLooseDebug dt
  let sum ← z.addLooseDebug dt
  let twisted ← yy.subLooseDebug (← xx.mulSmallDebug edwardsAWord)
  productsDebug cross difference sum twisted

def doubleDebug (p : EdwardsPoint) : Debug EdwardsPoint := do
  let x ← Debug.lazy (fromFe301 p.x)
  let y ← Debug.lazy (fromFe301 p.y)
  let z ← Debug.lazy (fromFe301 p.z)
  let xx ← x.squareDebug
  let yy ← y.squareDebug
  let zz ← z.squareDebug
  let twoZz ← (← zz.addLooseDebug zz).tightenDebug
  let twistedXx ← xx.mulSmallDebug edwardsAWord
  let square ← (← x.addLooseDebug y).squareDebug
  let cross ← square.subLooseDebug (← (← xx.addLooseDebug yy).tightenDebug)
  let sum ← twistedXx.addLooseDebug yy
  let difference ← (← sum.tightenDebug).subLooseDebug twoZz
  let twistedDifference ← twistedXx.subLooseDebug yy
  productsDebug cross difference sum twistedDifference

theorem addDebug_agrees (hp : p.Canonical) (hq : q.Canonical) :
    Debug.Agrees (p.addDebug q) (p.add q) := by
  have hx := repr_fromFe301 hp.x.repr
  have hy := repr_fromFe301 hp.y.repr
  have hz := repr_fromFe301 hp.z.repr
  have ht := repr_fromFe301 hp.t.repr
  have hrx := repr_fromFe301 hq.x.repr
  have hry := repr_fromFe301 hq.y.repr
  have hrz := repr_fromFe301 hq.z.repr
  have hrt := repr_fromFe301 hq.t.repr
  have hxx := hx.mul hrx
  have hyy := hy.mul hry
  have hScaledT := ht.mulSmall edwardsDWord
  have hdt := hScaledT.mul hrt
  have hzz := hz.mul hrz
  have hLeft := hx.addLoose hy
  have hRight := hrx.addLoose hry
  have hTight := (hxx.addLoose hyy).tighten
  have hCross := (hLeft.mul hRight).subLoose hTight
  have hDifference := hzz.subLoose hdt
  have hSum := hzz.addLoose hdt
  have hScaled := hxx.mulSmall edwardsAWord
  have hTwisted := hyy.subLoose hScaled
  exact (Debug.lazy_agrees hx).bind <|
    (Debug.lazy_agrees hy).bind <|
    (Debug.lazy_agrees hz).bind <|
    (Debug.lazy_agrees ht).bind <|
    (Debug.lazy_agrees hrx).bind <|
    (Debug.lazy_agrees hry).bind <|
    (Debug.lazy_agrees hrz).bind <|
    (Debug.lazy_agrees hrt).bind <|
    (Fe301Lazy.mulDebug_agrees hx hrx).bind <|
    (Fe301Lazy.mulDebug_agrees hy hry).bind <|
    (Fe301Lazy.mulSmallDebug_agrees ht _).bind <|
    (Fe301Lazy.mulDebug_agrees hScaledT hrt).bind <|
    (Fe301Lazy.mulDebug_agrees hz hrz).bind <|
    (Fe301Lazy.addLooseDebug_agrees hx hy).bind <|
    (Fe301Lazy.addLooseDebug_agrees hrx hry).bind <|
    (Fe301LazyLinear.mulDebug_agrees hLeft hRight).bind <|
    (Fe301Lazy.addLooseDebug_agrees hxx hyy).bind <|
    (Fe301LazyLinear.tightenDebug_agrees (hxx.addLoose hyy)).bind <|
    (Fe301Lazy.subLooseDebug_agrees (hLeft.mul hRight) hTight).bind <|
    (Fe301Lazy.subLooseDebug_agrees hzz hdt).bind <|
    (Fe301Lazy.addLooseDebug_agrees hzz hdt).bind <|
    (Fe301Lazy.mulSmallDebug_agrees hxx _).bind <|
    (Fe301Lazy.subLooseDebug_agrees hyy hScaled).bind <|
    productsDebug_agrees hCross hDifference hSum hTwisted

theorem addAffineDebug_agrees {c : AffineNielsPoint} (hp : p.Canonical) (hc : c.Canonical) :
    Debug.Agrees (p.addAffineDebug c) (p.addAffine c) := by
  have hx := repr_fromFe301 hp.x.repr
  have hy := repr_fromFe301 hp.y.repr
  have hz := repr_fromFe301 hp.z.repr
  have ht := repr_fromFe301 hp.t.repr
  have hcx := repr_fromFe301 hc.x.repr
  have hcy := repr_fromFe301 hc.y.repr
  have hcdt := repr_fromFe301 hc.dt.repr
  have hcxy := repr_fromFe301 hc.xy.repr
  have hxx := hx.mul hcx
  have hyy := hy.mul hcy
  have hdt := ht.mul hcdt
  have hLeft := hx.addLoose hy
  have hTight := (hxx.addLoose hyy).tighten
  have hCross := (hLeft.mulTight hcxy).subLoose hTight
  have hDifference := hz.subLoose hdt
  have hSum := hz.addLoose hdt
  have hScaled := hxx.mulSmall edwardsAWord
  have hTwisted := hyy.subLoose hScaled
  exact (Debug.lazy_agrees hx).bind <|
    (Debug.lazy_agrees hy).bind <|
    (Debug.lazy_agrees hz).bind <|
    (Debug.lazy_agrees ht).bind <|
    (Debug.lazy_agrees hcx).bind <|
    (Fe301Lazy.mulDebug_agrees hx hcx).bind <|
    (Debug.lazy_agrees hcy).bind <|
    (Fe301Lazy.mulDebug_agrees hy hcy).bind <|
    (Debug.lazy_agrees hcdt).bind <|
    (Fe301Lazy.mulDebug_agrees ht hcdt).bind <|
    (Fe301Lazy.addLooseDebug_agrees hx hy).bind <|
    (Debug.lazy_agrees hcxy).bind <|
    (Fe301LazyLinear.mulTightDebug_agrees hLeft hcxy).bind <|
    (Fe301Lazy.addLooseDebug_agrees hxx hyy).bind <|
    (Fe301LazyLinear.tightenDebug_agrees (hxx.addLoose hyy)).bind <|
    (Fe301Lazy.subLooseDebug_agrees (hLeft.mulTight hcxy) hTight).bind <|
    (Fe301Lazy.subLooseDebug_agrees hz hdt).bind <|
    (Fe301Lazy.addLooseDebug_agrees hz hdt).bind <|
    (Fe301Lazy.mulSmallDebug_agrees hxx _).bind <|
    (Fe301Lazy.subLooseDebug_agrees hyy hScaled).bind <|
    productsDebug_agrees hCross hDifference hSum hTwisted

theorem doubleDebug_agrees (hp : p.Canonical) : Debug.Agrees p.doubleDebug p.double := by
  have hx := repr_fromFe301 hp.x.repr
  have hy := repr_fromFe301 hp.y.repr
  have hz := repr_fromFe301 hp.z.repr
  have hxx := hx.square
  have hyy := hy.square
  have hzz := hz.square
  have hTwo := (hzz.addLoose hzz).tighten
  have hScaled := hxx.mulSmall edwardsAWord
  have hLeft := hx.addLoose hy
  have hTight := (hxx.addLoose hyy).tighten
  have hCross := hLeft.square.subLoose hTight
  have hSum := hScaled.addLoose hyy
  have hDifference := hSum.tighten.subLoose hTwo
  have hTwisted := hScaled.subLoose hyy
  exact (Debug.lazy_agrees hx).bind <|
    (Debug.lazy_agrees hy).bind <|
    (Debug.lazy_agrees hz).bind <|
    (Fe301Lazy.squareDebug_agrees hx).bind <|
    (Fe301Lazy.squareDebug_agrees hy).bind <|
    (Fe301Lazy.squareDebug_agrees hz).bind <|
    (Fe301Lazy.addLooseDebug_agrees hzz hzz).bind <|
    (Fe301LazyLinear.tightenDebug_agrees (hzz.addLoose hzz)).bind <|
    (Fe301Lazy.mulSmallDebug_agrees hxx _).bind <|
    (Fe301Lazy.addLooseDebug_agrees hx hy).bind <|
    (Fe301LazyLinear.squareDebug_agrees hLeft).bind <|
    (Fe301Lazy.addLooseDebug_agrees hxx hyy).bind <|
    (Fe301LazyLinear.tightenDebug_agrees (hxx.addLoose hyy)).bind <|
    (Fe301Lazy.subLooseDebug_agrees hLeft.square hTight).bind <|
    (Fe301Lazy.addLooseDebug_agrees hScaled hyy).bind <|
    (Fe301LazyLinear.tightenDebug_agrees hSum).bind <|
    (Fe301Lazy.subLooseDebug_agrees hSum.tighten hTwo).bind <|
    (Fe301Lazy.subLooseDebug_agrees hScaled hyy).bind <|
    productsDebug_agrees hCross hDifference hSum hTwisted

end EdwardsPoint

end X301Provider
