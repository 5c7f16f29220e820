import HadBadge.Emu.Exec
import HadBadge.Lib.FloatFormat

/-!
# `Emu.SoftFp`: floating point in software

`emu/softfp_template.h` and `emu/softfp_template_icvt.h` for any format, as built with 128-bit integers
(`HAVE_INT128`), so that a word of twice the size (`F_ULONG`) is there for both formats of the machine. `F_UINT` is a
natural number below `2 ^ F.size`; a failed assertion is `.abort`.

## Contents
- **Words.** `fUint`, the masks, `clz`, flags and rounding modes.
- **Packing.** `packSf`, `rshiftRnd`, `roundPackSf`, `normalizeSf`, `normalize2Sf`.
- **Arithmetic.** `addSf`, `subSf`, `mulSf`, `fmaSf`, `divSf`, `sqrtSf`.
- **Comparisons.** `minSf`, `maxSf`, `eqQuietSf`, `leSf`, `ltSf`, `fclassSf`.
- **Conversions.** `cvtWiden`, `cvtNarrow`, `internalCvtSfI`, `internalCvtISf`.
- **The functions of `softfp.h`.** `softFp`, and the interpreter that calls them, `softFpEnv`.
- **Without words of twice the size.** `mulUHalves`, `divremUBits`, `sqrtremUWords`: what `mul_u`, `divrem_u` and
  `sqrtrem_u` are without `F_ULONG`.
-/

namespace HadBadge

open Lib

/-! ## Words -/

variable (F : FloatFormat)

/-- A value in an `F_UINT`. -/
def fUint (n : Nat) : Nat := n % 2 ^ F.size

/-- `IMANT_SIZE` and `RND_SIZE`. -/
def imantSize : Nat := F.size - 2

def rndSize : Nat := imantSize F - F.mantSize

/-- `MANT_MASK`, `SIGN_MASK` and `QNAN_MASK`. -/
def mantMask : Nat := 1 <<< F.mantSize - 1

def signMask : Nat := 1 <<< (F.size - 1)

def qnanMask : Nat := 1 <<< (F.mantSize - 1)

/-- `F_QNAN`. -/
def fQnan : Nat := F.expMask <<< F.mantSize ||| 1 <<< (F.mantSize - 1)

/-- `clz` for integers of `n` bits. -/
def clz (n a : Nat) : Nat := if a = 0 then n else n - 1 - a.log2

def fflagInvalidOp : UInt32 := (1 : UInt32) <<< 4
def fflagDivideZero : UInt32 := (1 : UInt32) <<< 3
def fflagOverflow : UInt32 := (1 : UInt32) <<< 2
def fflagUnderflow : UInt32 := (1 : UInt32) <<< 1
def fflagInexact : UInt32 := (1 : UInt32) <<< 0

/-- `RoundingModeEnum`. -/
def rmRne : UInt32 := 0
def rmRtz : UInt32 := 1
def rmRdn : UInt32 := 2
def rmRup : UInt32 := 3
def rmRmm : UInt32 := 4

/-- What the functions leave: a pattern and `*pfflags`. -/
abbrev FpResult := Nat × UInt32

/-! ## Packing -/

/-- The fields of a pattern, as each function takes them apart. -/
def sfSign (a : Nat) : Nat := a >>> (F.size - 1)

def sfExp (a : Nat) : Nat := (a >>> F.mantSize) &&& F.expMask

def sfMant (a : Nat) : Nat := a &&& mantMask F

/-- `pack_sf`. -/
def packSf (aSign aExp aMant : Nat) : Nat :=
  fUint F (aSign <<< (F.size - 1)) ||| fUint F (aExp <<< F.mantSize) ||| (aMant &&& mantMask F)

/-- `rshift_rnd`. -/
def rshiftRnd (a d : Nat) : Nat :=
  if d ≠ 0 then
    if F.size ≤ d then (if a ≠ 0 then 1 else 0)
    else
      let mask := fUint F (1 <<< d) - 1
      a >>> d ||| (if a &&& mask ≠ 0 then 1 else 0)
  else a

/-- `addend`, of the `switch` over the rounding mode. -/
def rmAddend (aSign : Nat) (rm : UInt32) : Nat :=
  if rm = rmRne ∨ rm = rmRmm then 1 <<< (rndSize F - 1)
  else if rm = rmRtz then 0
  else if aSign ^^^ (rm &&& 1).toNat ≠ 0 then 1 <<< rndSize F - 1
  else 0

/-- `(a_mant + addend) >> RND_SIZE`, and the even result half way. -/
def rndMant (aMant addend : Nat) (rm : UInt32) : Nat :=
  let rndBits := aMant &&& (1 <<< rndSize F - 1)
  let aMant := fUint F (aMant + addend) >>> rndSize F
  if rm = rmRne ∧ rndBits = 1 <<< (rndSize F - 1) then aMant &&& (2 ^ F.size - 2) else aMant

/-- `round_pack_sf` behind the shift of a subnormal number. -/
def packRounded (aSign : Nat) (aExp : Int) (aMant addend : Nat) (rm fl : UInt32) : FpResult :=
  let fl := if aMant &&& (1 <<< rndSize F - 1) ≠ 0 then fl ||| fflagInexact else fl
  let aMant := rndMant F aMant addend rm
  let aExp := aExp + (aMant >>> (F.mantSize + 1) : Nat)
  if aMant ≤ mantMask F then (packSf F aSign 0 aMant, fl)
  else if F.expMask ≤ aExp then
    let fl := fl ||| (fflagOverflow ||| fflagInexact)
    if addend = 0 then (packSf F aSign (F.expMask - 1) (mantMask F), fl) else (packSf F aSign F.expMask 0, fl)
  else (packSf F aSign aExp.toNat aMant, fl)

/-- `round_pack_sf`. -/
def roundPackSf (aSign : Nat) (aExp : Int) (aMant : Nat) (rm fl : UInt32) : FpResult :=
  let addend := rmAddend F aSign rm
  if aExp ≤ 0 then
    let isSubnormal : Bool := aExp < 0 ∨ fUint F (aMant + addend) < fUint F (1 <<< (F.size - 1))
    let aMant := rshiftRnd F aMant (1 - aExp).toNat
    let rndBits := aMant &&& (1 <<< rndSize F - 1)
    let fl := if isSubnormal = true ∧ rndBits ≠ 0 then fl ||| fflagUnderflow else fl
    packRounded F aSign 1 aMant addend rm fl
  else packRounded F aSign aExp aMant addend rm fl

/-- `normalize_sf`. -/
def normalizeSf (aSign : Nat) (aExp : Int) (aMant : Nat) (rm fl : UInt32) : Except Fault FpResult :=
  let shift : Int := clz F.size aMant - ((F.size : Int) - 1 - imantSize F)
  if 0 ≤ shift then .ok (roundPackSf F aSign (aExp - shift) (fUint F (aMant <<< shift.toNat)) rm fl)
  else .error .abort

/-- `normalize2_sf`. -/
def normalize2Sf (aSign : Nat) (aExp : Int) (aMant1 aMant0 : Nat) (rm fl : UInt32) : Except Fault FpResult :=
  let l := if aMant1 = 0 then F.size + clz F.size aMant0 else clz F.size aMant1
  let shift : Int := l - ((F.size : Int) - 1 - imantSize F)
  if 0 ≤ shift then
    let n := shift.toNat
    let aMant :=
      if n = 0 then aMant1 ||| (if aMant0 ≠ 0 then 1 else 0)
      else if n < F.size then
        (fUint F (aMant1 <<< n) ||| aMant0 >>> (F.size - n)) ||| (if fUint F (aMant0 <<< n) ≠ 0 then 1 else 0)
      else fUint F (aMant0 <<< (n - F.size))
    .ok (roundPackSf F aSign (aExp - shift) aMant rm fl)
  else .error .abort

/-- `issignan_sf`. -/
def issignanSf (a : Nat) : Bool :=
  (a >>> (F.mantSize - 1)) &&& (1 <<< (F.expSize + 1) - 1) = 2 * F.expMask ∧ a &&& mantMask F ≠ 0

/-- `isnan_sf`. -/
def isnanSf (a : Nat) : Bool := sfExp F a = F.expMask ∧ sfMant F a ≠ 0

/-- `*pfflags |= FFLAG_INVALID_OP` under a condition. -/
def invalidIf (c : Bool) (fl : UInt32) : UInt32 := if c = true then fl ||| fflagInvalidOp else fl

/-! ## Arithmetic -/

/-- `add_sf` behind the swap. -/
def addOrdered (a b : Nat) (rm fl : UInt32) : Except Fault FpResult :=
  let aSign := sfSign F a
  let bSign := sfSign F b
  let aExp := sfExp F a
  let bExp := sfExp F b
  let aMant := fUint F (sfMant F a <<< 3)
  let bMant := fUint F (sfMant F b <<< 3)
  if aExp = F.expMask then
    if aMant ≠ 0 then
      .ok (fQnan F, invalidIf (aMant &&& fUint F (qnanMask F <<< 3) = 0 ∨ issignanSf F b) fl)
    else if bExp = F.expMask ∧ aSign ≠ bSign then .ok (fQnan F, fl ||| fflagInvalidOp)
    else .ok (a, fl)
  else
    let aMant := if aExp = 0 then aMant else aMant ||| fUint F (1 <<< (F.mantSize + 3))
    let aExp := if aExp = 0 then 1 else aExp
    let bMant := if bExp = 0 then bMant else bMant ||| fUint F (1 <<< (F.mantSize + 3))
    let bExp := if bExp = 0 then 1 else bExp
    let bMant := rshiftRnd F bMant (aExp - bExp)
    let rExp : Int := aExp + (rndSize F - 3)
    if aSign = bSign then normalizeSf F aSign rExp (fUint F (aMant + bMant)) rm fl
    else
      let aMant := fUint F (2 ^ F.size + aMant - bMant)
      let aSign := if aMant = 0 then (if rm = rmRdn then 1 else 0) else aSign
      normalizeSf F aSign rExp aMant rm fl

/-- `add_sf`. -/
def addSf (a b : Nat) (rm fl : UInt32) : Except Fault FpResult :=
  let abs (x : Nat) := x &&& (2 ^ F.size - 1 - signMask F)
  if abs a < abs b then addOrdered F b a rm fl else addOrdered F a b rm fl

/-- `sub_sf`. -/
def subSf (a b : Nat) (rm fl : UInt32) : Except Fault FpResult := addSf F a (b ^^^ signMask F) rm fl

/-- `normalize_subnormal_sf`: the exponent and the mantissa. -/
def normalizeSubnormalSf (aMant : Nat) : Int × Nat :=
  let shift : Int := F.mantSize - ((F.size : Int) - 1 - clz F.size aMant)
  (1 - shift, fUint F (aMant <<< shift.toNat))

/-- Exponent and mantissa of an operand that is finite and not zero. -/
def normalOperand (aExp aMant : Nat) : Int × Nat :=
  if aExp = 0 then normalizeSubnormalSf F aMant else (aExp, aMant ||| fUint F (1 <<< F.mantSize))

/-- `mul_u`: the high and the low word. -/
def mulU (a b : Nat) : Nat × Nat :=
  let r := a * b % 2 ^ (2 * F.size)
  (fUint F (r >>> F.size), fUint F r)

/-- `mul_sf`. -/
def mulSf (a b : Nat) (rm fl : UInt32) : Except Fault FpResult :=
  let rSign := sfSign F a ^^^ sfSign F b
  let aExp := sfExp F a
  let bExp := sfExp F b
  let aMant := sfMant F a
  let bMant := sfMant F b
  if aExp = F.expMask ∨ bExp = F.expMask then
    if isnanSf F a ∨ isnanSf F b then .ok (fQnan F, invalidIf (issignanSf F a ∨ issignanSf F b) fl)
    else if (aExp = F.expMask ∧ bExp = 0 ∧ bMant = 0) ∨ (bExp = F.expMask ∧ aExp = 0 ∧ aMant = 0) then
      .ok (fQnan F, fl ||| fflagInvalidOp)
    else .ok (packSf F rSign F.expMask 0, fl)
  else if aExp = 0 ∧ aMant = 0 then .ok (packSf F rSign 0 0, fl)
  else if bExp = 0 ∧ bMant = 0 then .ok (packSf F rSign 0 0, fl)
  else
    let (aExp, aMant) := normalOperand F aExp aMant
    let (bExp, bMant) := normalOperand F bExp bMant
    let rExp := aExp + bExp - (1 <<< (F.expSize - 1) : Nat) + 2
    let (rMant, rMantLow) := mulU F (fUint F (aMant <<< rndSize F)) (fUint F (bMant <<< (rndSize F + 1)))
    normalizeSf F rSign rExp (rMant ||| (if rMantLow ≠ 0 then 1 else 0)) rm fl

/-- A number of two words with its sign and exponent, in `fma_sf`. -/
structure FmaOperand where
  sign : Nat
  exp : Int
  mant1 : Nat
  mant0 : Nat

/-- The product in `fma_sf`, normalized. -/
def fmaProduct (rSign : Nat) (aExp bExp : Int) (aMant bMant : Nat) : FmaOperand :=
  let rExp := aExp + bExp - (1 <<< (F.expSize - 1) : Nat) + 3
  let (rMant1, rMant0) := mulU F (fUint F (aMant <<< rndSize F)) (fUint F (bMant <<< rndSize F))
  if rMant1 < 1 <<< (F.size - 3) then
    ⟨rSign, rExp - 1, fUint F (rMant1 <<< 1) ||| rMant0 >>> (F.size - 1), fUint F (rMant0 <<< 1)⟩
  else ⟨rSign, rExp, rMant1, rMant0⟩

/-- The shift of the smaller summand in `fma_sf`. -/
def fmaShift (mant1 mant0 shift : Nat) : Nat × Nat :=
  if 2 * F.size ≤ shift then (0, if mant0 ||| mant1 ≠ 0 then 1 else 0)
  else if F.size + 1 ≤ shift then (0, rshiftRnd F mant1 (shift - F.size))
  else if shift = F.size then (0, mant1 ||| (if mant0 ≠ 0 then 1 else 0))
  else if shift ≠ 0 then
    let mask := fUint F (1 <<< shift) - 1
    (mant1 >>> shift,
      (fUint F (mant1 <<< (F.size - shift)) ||| mant0 >>> shift) ||| (if mant0 &&& mask ≠ 0 then 1 else 0))
  else (mant1, mant0)

/-- `fma_sf` from the shift on, with `abs(r) >= abs(c)`. -/
def fmaAdd (r c : FmaOperand) (rm fl : UInt32) : Except Fault FpResult :=
  let (cMant1, cMant0) := fmaShift F c.mant1 c.mant0 (r.exp - c.exp).toNat
  if r.sign = c.sign then
    let rMant0 := fUint F (r.mant0 + cMant0)
    let rMant1 := fUint F (r.mant1 + cMant1 + (if rMant0 < cMant0 then 1 else 0))
    normalize2Sf F r.sign r.exp rMant1 rMant0 rm fl
  else
    let rMant0 := fUint F (2 ^ F.size + r.mant0 - cMant0)
    let rMant1 := fUint F (2 * 2 ^ F.size + r.mant1 - cMant1 - (if r.mant0 < rMant0 then 1 else 0))
    let rSign := if rMant0 ||| rMant1 = 0 then (if rm = rmRdn then 1 else 0) else r.sign
    normalize2Sf F rSign r.exp rMant1 rMant0 rm fl

/-- `fma_sf`. -/
def fmaSf (a b c : Nat) (rm fl : UInt32) : Except Fault FpResult :=
  let cSign := sfSign F c
  let rSign := sfSign F a ^^^ sfSign F b
  let aExp := sfExp F a
  let bExp := sfExp F b
  let cExp := sfExp F c
  let aMant := sfMant F a
  let bMant := sfMant F b
  let cMant := sfMant F c
  if aExp = F.expMask ∨ bExp = F.expMask ∨ cExp = F.expMask then
    if isnanSf F a ∨ isnanSf F b ∨ isnanSf F c then
      .ok (fQnan F, invalidIf (issignanSf F a ∨ issignanSf F b ∨ issignanSf F c) fl)
    else if (aExp = F.expMask ∧ bExp = 0 ∧ bMant = 0) ∨ (bExp = F.expMask ∧ aExp = 0 ∧ aMant = 0) ∨
        ((aExp = F.expMask ∨ bExp = F.expMask) ∧ cExp = F.expMask ∧ rSign ≠ cSign) then
      .ok (fQnan F, fl ||| fflagInvalidOp)
    else if cExp = F.expMask then .ok (packSf F cSign F.expMask 0, fl)
    else .ok (packSf F rSign F.expMask 0, fl)
  else if (aExp = 0 ∧ aMant = 0) ∨ (bExp = 0 ∧ bMant = 0) then
    if cExp = 0 ∧ cMant = 0 then
      .ok (packSf F (if cSign ≠ rSign then (if rm = rmRdn then 1 else 0) else rSign) 0 0, fl)
    else .ok (c, fl)
  else
    let (aExp, aMant) := normalOperand F aExp aMant
    let (bExp, bMant) := normalOperand F bExp bMant
    let r := fmaProduct F rSign aExp bExp aMant bMant
    if cExp = 0 ∧ cMant = 0 then
      normalizeSf F r.sign r.exp (r.mant1 ||| (if r.mant0 ≠ 0 then 1 else 0)) rm fl
    else
      let (cExp, cMant) := normalOperand F cExp cMant
      let c : FmaOperand := ⟨cSign, cExp + 1, fUint F (cMant <<< (rndSize F - 1)), 0⟩
      if c.exp < r.exp ∨ (r.exp = c.exp ∧ c.mant1 ≤ r.mant1) then fmaAdd F r c rm fl else fmaAdd F c r rm fl

/-- `divrem_u`: quotient and remainder. -/
def divremU (ah al b : Nat) : Nat × Nat :=
  let a := ah <<< F.size ||| al
  (fUint F (a / b), fUint F (a % b))

/-- `div_sf`. -/
def divSf (a b : Nat) (rm fl : UInt32) : Except Fault FpResult :=
  let rSign := sfSign F a ^^^ sfSign F b
  let aExp := sfExp F a
  let bExp := sfExp F b
  let aMant := sfMant F a
  let bMant := sfMant F b
  if aExp = F.expMask then
    if aMant ≠ 0 ∨ isnanSf F b then .ok (fQnan F, invalidIf (issignanSf F a ∨ issignanSf F b) fl)
    else if bExp = F.expMask then .ok (fQnan F, fl ||| fflagInvalidOp)
    else .ok (packSf F rSign F.expMask 0, fl)
  else if bExp = F.expMask then
    if bMant ≠ 0 then .ok (fQnan F, invalidIf (issignanSf F a ∨ issignanSf F b) fl)
    else .ok (packSf F rSign 0 0, fl)
  else if bExp = 0 ∧ bMant = 0 then
    if aExp = 0 ∧ aMant = 0 then .ok (fQnan F, fl ||| fflagInvalidOp)
    else .ok (packSf F rSign F.expMask 0, fl ||| fflagDivideZero)
  else if aExp = 0 ∧ aMant = 0 then .ok (packSf F rSign 0 0, fl)
  else
    let (bExp, bMant) := normalOperand F bExp bMant
    let (aExp, aMant) := normalOperand F aExp aMant
    let rExp := aExp - bExp + (1 <<< (F.expSize - 1) : Nat) - 1
    let (rMant, r) := divremU F aMant 0 (fUint F (bMant <<< 2))
    normalizeSf F rSign rExp (if r ≠ 0 then rMant ||| 1 else rMant) rm fl

/-- The loop of `sqrtrem_u`. -/
def sqrtLoop (a s : Nat) : Nat :=
  let u := (a / s + s) / 2
  if s ≤ u then s else sqrtLoop a u
termination_by s

/-- `sqrtrem_u`: whether the root is inexact, and the root. -/
def sqrtremU (ah al : Nat) : Bool × Nat :=
  if ah = 0 ∧ al = 0 then (false, 0)
  else
    let l := if ah ≠ 0 then 2 * F.size - clz F.size (ah - 1) else F.size - clz F.size (al - 1)
    let a := ah <<< F.size ||| al
    let s := sqrtLoop a (1 <<< ((l + 1) / 2))
    (a ≠ s * s, fUint F s)

/-- `sqrt_sf`. -/
def sqrtSf (a : Nat) (rm fl : UInt32) : Except Fault FpResult :=
  let aSign := sfSign F a
  let aExp := sfExp F a
  let aMant := sfMant F a
  if aExp = F.expMask then
    if aMant ≠ 0 then .ok (fQnan F, invalidIf (issignanSf F a) fl)
    else if aSign ≠ 0 then .ok (fQnan F, fl ||| fflagInvalidOp)
    else .ok (a, fl)
  else if aSign ≠ 0 then
    if aExp = 0 ∧ aMant = 0 then .ok (a, fl) else .ok (fQnan F, fl ||| fflagInvalidOp)
  else if aExp = 0 ∧ aMant = 0 then .ok (packSf F 0 0 0, fl)
  else
    let (aExp, aMant) := normalOperand F aExp aMant
    let aExp := aExp - (F.expMask / 2 : Nat)
    let aMant := if aExp % 2 ≠ 0 then fUint F (aMant <<< 1) else aMant
    let aExp := if aExp % 2 ≠ 0 then aExp - 1 else aExp
    let aExp := aExp / 2 + (F.expMask / 2 : Nat)
    let (inexact, s) := sqrtremU F (fUint F (aMant <<< (F.size - 4 - F.mantSize))) 0
    normalizeSf F aSign aExp (if inexact = true then s ||| 1 else s) rm fl

/-! ## Comparisons -/

/-- The NaNs of `min_sf` and `max_sf`, and otherwise the operand that is picked. -/
def pickSf (pick : Nat → Nat → Nat) (a b : Nat) (fl : UInt32) : FpResult :=
  if isnanSf F a ∨ isnanSf F b then
    if issignanSf F a ∨ issignanSf F b then (fQnan F, fl ||| fflagInvalidOp)
    else if isnanSf F a then (if isnanSf F b then fQnan F else b, fl)
    else (a, fl)
  else (pick a b, fl)

/-- `(a < b) ^ a_sign`. -/
def ltXor (a b aSign : Nat) : Bool := (if a < b then 1 else 0) ^^^ aSign ≠ 0

/-- `min_sf`. -/
def minSf (a b : Nat) (fl : UInt32) : FpResult :=
  pickSf F (fun a b =>
    if sfSign F a ≠ sfSign F b then (if sfSign F a ≠ 0 then a else b)
    else if ltXor a b (sfSign F a) = true then a else b) a b fl

/-- `max_sf`. -/
def maxSf (a b : Nat) (fl : UInt32) : FpResult :=
  pickSf F (fun a b =>
    if sfSign F a ≠ sfSign F b then (if sfSign F a ≠ 0 then b else a)
    else if ltXor a b (sfSign F a) = true then b else a) a b fl

/-- `(F_UINT)((a | b) << 1) == 0`. -/
def bothZero (a b : Nat) : Bool := fUint F ((a ||| b) <<< 1) = 0

/-- `eq_quiet_sf`. -/
def eqQuietSf (a b : Nat) (fl : UInt32) : Bool × UInt32 :=
  if isnanSf F a ∨ isnanSf F b then (false, invalidIf (issignanSf F a ∨ issignanSf F b) fl)
  else if bothZero F a b = true then (true, fl)
  else (a = b, fl)

/-- `le_sf`. -/
def leSf (a b : Nat) (fl : UInt32) : Bool × UInt32 :=
  if isnanSf F a ∨ isnanSf F b then (false, fl ||| fflagInvalidOp)
  else if sfSign F a ≠ sfSign F b then (sfSign F a ≠ 0 ∨ bothZero F a b = true, fl)
  else if sfSign F a ≠ 0 then (b ≤ a, fl)
  else (a ≤ b, fl)

/-- `lt_sf`. -/
def ltSf (a b : Nat) (fl : UInt32) : Bool × UInt32 :=
  if isnanSf F a ∨ isnanSf F b then (false, fl ||| fflagInvalidOp)
  else if sfSign F a ≠ sfSign F b then (sfSign F a ≠ 0 ∧ bothZero F a b = false, fl)
  else if sfSign F a ≠ 0 then (b < a, fl)
  else (a < b, fl)

def fclassNinf : UInt32 := (1 : UInt32) <<< 0
def fclassNnormal : UInt32 := (1 : UInt32) <<< 1
def fclassNsubnormal : UInt32 := (1 : UInt32) <<< 2
def fclassNzero : UInt32 := (1 : UInt32) <<< 3
def fclassPzero : UInt32 := (1 : UInt32) <<< 4
def fclassPsubnormal : UInt32 := (1 : UInt32) <<< 5
def fclassPnormal : UInt32 := (1 : UInt32) <<< 6
def fclassPinf : UInt32 := (1 : UInt32) <<< 7
def fclassSnan : UInt32 := (1 : UInt32) <<< 8
def fclassQnan : UInt32 := (1 : UInt32) <<< 9

/-- `fclass_sf`. -/
def fclassSf (a : Nat) : UInt32 :=
  let aSign := sfSign F a
  let aExp := sfExp F a
  let aMant := sfMant F a
  if aExp = F.expMask then
    if aMant ≠ 0 then (if aMant &&& qnanMask F ≠ 0 then fclassQnan else fclassSnan)
    else if aSign ≠ 0 then fclassNinf
    else fclassPinf
  else if aExp = 0 then
    if aMant = 0 then (if aSign ≠ 0 then fclassNzero else fclassPzero)
    else if aSign ≠ 0 then fclassNsubnormal
    else fclassPsubnormal
  else if aSign ≠ 0 then fclassNnormal
  else fclassPnormal

/-! ## Conversions -/

/-- `cvt_sf32_sf`, and `cvt_sf64_sf`: from a format `G` to a wider one. -/
def cvtWiden (G F : FloatFormat) (a : Nat) (fl : UInt32) : FpResult :=
  let aSign := sfSign G a
  let aExp := sfExp G a
  let aMant := sfMant G a
  if aExp = G.expMask then
    if aMant ≠ 0 then (fQnan F, invalidIf (issignanSf G a) fl)
    else (packSf F aSign F.expMask 0, fl)
  else if aExp = 0 ∧ aMant = 0 then (packSf F aSign 0 0, fl)
  else
    let (aExp, aMant) := if aExp = 0 then normalizeSubnormalSf G aMant else (aExp, aMant)
    let aExp : Int := aExp - (G.expMask / 2 : Nat) + (F.expMask / 2 : Nat)
    (packSf F aSign aExp.toNat (fUint F (aMant <<< (F.mantSize - G.mantSize))), fl)

/-- `cvt_sf_sf32`, and `cvt_sf_sf64`: to a format `G` from a wider one. The mantissa of a subnormal number is not
    the normalized one, although the exponent is. -/
def cvtNarrow (F G : FloatFormat) (a : Nat) (rm fl : UInt32) : Except Fault FpResult :=
  let aSign := sfSign F a
  let aExp := sfExp F a
  let aMant := sfMant F a
  if aExp = F.expMask then
    if aMant ≠ 0 then .ok (fQnan G, invalidIf (issignanSf F a) fl)
    else .ok (packSf G aSign G.expMask 0, fl)
  else if aExp = 0 ∧ aMant = 0 then .ok (packSf G aSign 0 0, fl)
  else
    let (aExp, aMant) :=
      if aExp = 0 then ((normalizeSubnormalSf F aMant).1, aMant) else ((aExp : Int), aMant ||| fUint F (1 <<< F.mantSize))
    let aExp := aExp - (F.expMask / 2 : Nat) + (G.expMask / 2 : Nat)
    normalizeSf G aSign aExp (fUint G (rshiftRnd F aMant (F.mantSize - (G.size - 2)))) rm fl

/-- The formats of 32 and 64 bits. -/
def sf32 : FloatFormat := ⟨23, 8, by decide, by decide⟩

def sf64 : FloatFormat := ⟨52, 11, by decide, by decide⟩

/-- `cvt_sf32_sf64`. -/
def cvtSf32Sf64 (a : Nat) (fl : UInt32) : FpResult := cvtWiden sf32 sf64 a fl

/-- `cvt_sf64_sf32`. -/
def cvtSf64Sf32 (a : Nat) (rm fl : UInt32) : Except Fault FpResult := cvtNarrow sf64 sf32 a rm fl

/-- `internal_cvt_sf_i`, to an `ICVT_UINT` of `n` bits. -/
def internalCvtSfI (n a : Nat) (rm fl : UInt32) (isUnsigned : Bool) : Nat × UInt32 :=
  let icvt (x : Nat) := x % 2 ^ n
  let aExp := sfExp F a
  let aMant := sfMant F a
  let aSign := if aExp = F.expMask ∧ aMant ≠ 0 then 0 else sfSign F a
  let aMant := if aExp = 0 then aMant else aMant ||| fUint F (1 <<< F.mantSize)
  let aExp : Int := (if aExp = 0 then 1 else aExp) - (F.expMask / 2 : Nat) - F.mantSize
  let aMant := fUint F (aMant <<< rndSize F)
  let rMax := if isUnsigned = true then icvt (2 ^ n + aSign - 1) else icvt (1 <<< (n - 1)) - (aSign ^^^ 1)
  let signed (r : Nat) := if aSign ≠ 0 then icvt (2 ^ n - r) else r
  if 0 ≤ aExp then
    if aExp ≤ (n : Int) - 1 - F.mantSize then
      let r := icvt (icvt (aMant >>> rndSize F) <<< aExp.toNat)
      if rMax < r then (rMax, fl ||| fflagInvalidOp) else (signed r, fl)
    else (rMax, fl ||| fflagInvalidOp)
  else
    let aMant := rshiftRnd F aMant (-aExp).toNat
    let rndBits := aMant &&& (1 <<< rndSize F - 1)
    let aMant := rndMant F aMant (rmAddend F aSign rm) rm
    if rMax < aMant then (rMax, fl ||| fflagInvalidOp)
    else (signed (icvt aMant), if rndBits ≠ 0 then fl ||| fflagInexact else fl)

/-- `cvt_sf_i` and `cvt_sf_u`. -/
def cvtSfI (n a : Nat) (rm fl : UInt32) : Nat × UInt32 := internalCvtSfI F n a rm fl false

def cvtSfU (n a : Nat) (rm fl : UInt32) : Nat × UInt32 := internalCvtSfI F n a rm fl true

/-- `internal_cvt_i_sf`, from an `ICVT_INT` of `n` bits. -/
def internalCvtISf (n a : Nat) (rm fl : UInt32) (isUnsigned : Bool) : Except Fault FpResult :=
  let neg : Bool := isUnsigned = false ∧ 2 ^ (n - 1) ≤ a
  let aSign := if neg = true then 1 else 0
  let r := if neg = true then (2 ^ n - a) % 2 ^ n else a
  let aExp : Int := (F.expMask / 2 : Nat) + (F.size : Int) - 2
  let l : Int := (n : Int) - clz n r - (F.size - 1)
  if 0 < l then
    let mask := r &&& (1 <<< l.toNat - 1)
    let r := r >>> l.toNat ||| (if r &&& mask ≠ 0 then 1 else 0)
    normalizeSf F aSign (aExp + l) (fUint F r) rm fl
  else normalizeSf F aSign aExp (fUint F r) rm fl

/-- `cvt_i_sf` and `cvt_u_sf`. -/
def cvtISf (n a : Nat) (rm fl : UInt32) : Except Fault FpResult := internalCvtISf F n a rm fl false

def cvtUSf (n a : Nat) (rm fl : UInt32) : Except Fault FpResult := internalCvtISf F n a rm fl true

/-! ## The functions of `softfp.h` -/

/-- What a function returns in words of type `α`; where an assertion fails it does not return. -/
def inWord {α : Type} (ofNat : Nat → α) (fl : UInt32) : Except Fault FpResult → α × UInt32
  | .ok (r, fl) => (ofNat r, fl)
  | .error _    => (ofNat 0, fl)

/-- The functions of one format, on words of type `α`. -/
def softFp {α : Type} (ofNat : Nat → α) (toNat : α → Nat) : SoftFp α where
  add := fun a b rm fl => inWord ofNat fl (addSf F (toNat a) (toNat b) rm fl)
  sub := fun a b rm fl => inWord ofNat fl (subSf F (toNat a) (toNat b) rm fl)
  mul := fun a b rm fl => inWord ofNat fl (mulSf F (toNat a) (toNat b) rm fl)
  div := fun a b rm fl => inWord ofNat fl (divSf F (toNat a) (toNat b) rm fl)
  sqrt := fun a rm fl => inWord ofNat fl (sqrtSf F (toNat a) rm fl)
  fma := fun a b c rm fl => inWord ofNat fl (fmaSf F (toNat a) (toNat b) (toNat c) rm fl)
  min := fun a b fl => inWord ofNat fl (.ok (minSf F (toNat a) (toNat b) fl))
  max := fun a b fl => inWord ofNat fl (.ok (maxSf F (toNat a) (toNat b) fl))
  eqQuiet := fun a b fl => let r := eqQuietSf F (toNat a) (toNat b) fl; (if r.1 = true then 1 else 0, r.2)
  le := fun a b fl => let r := leSf F (toNat a) (toNat b) fl; (if r.1 = true then 1 else 0, r.2)
  lt := fun a b fl => let r := ltSf F (toNat a) (toNat b) fl; (if r.1 = true then 1 else 0, r.2)
  fclass := fun a => fclassSf F (toNat a)
  cvtI32 := fun a rm fl => let r := cvtSfI F 32 (toNat a) rm fl; (UInt32.ofNat r.1, r.2)
  cvtU32 := fun a rm fl => let r := cvtSfU F 32 (toNat a) rm fl; (UInt32.ofNat r.1, r.2)
  ofI32 := fun x rm fl => inWord ofNat fl (cvtISf F 32 x.toNat rm fl)
  ofU32 := fun x rm fl => inWord ofNat fl (cvtUSf F 32 x.toNat rm fl)

/-- The interpreter with the functions of `softfp.c`. -/
def softFpEnv {σ : Type} (mm : MainMem) (host : MachHost σ) (junk : RISCVCPUState σ → UInt32 → Nat) : InterpEnv σ where
  mm := mm
  host := host
  junk := junk
  sf32 := softFp sf32 UInt32.ofNat UInt32.toNat
  sf64 := softFp sf64 UInt64.ofNat UInt64.toNat
  cvtSf32Sf64 := fun a fl => inWord UInt64.ofNat fl (.ok (cvtSf32Sf64 a.toNat fl))
  cvtSf64Sf32 := fun a rm fl => inWord UInt32.ofNat fl (cvtSf64Sf32 a.toNat rm fl)

/-! ## Without words of twice the size -/

/-- `FH_SIZE`. -/
def fhSize : Nat := F.size / 2

/-- A value in an `F_UHALF`. -/
def fUhalf (n : Nat) : Nat := n % 2 ^ fhSize F

/-- `mul_u` by halves. -/
def mulUHalves (a b : Nat) : Nat × Nat :=
  let a0 := fUhalf F a
  let a1 := fUhalf F (a >>> fhSize F)
  let b0 := fUhalf F b
  let b1 := fUhalf F (b >>> fhSize F)
  let r00 := fUint F (a0 * b0)
  let r01 := fUint F (a0 * b1)
  let r10 := fUint F (a1 * b0)
  let r11 := fUint F (a1 * b1)
  let r0 := fUhalf F r00
  let c := fUint F (r00 >>> fhSize F + fUhalf F r01 + fUhalf F r10)
  let r1 := fUhalf F c
  let c := fUint F (c >>> fhSize F + r01 >>> fhSize F + r10 >>> fhSize F + fUhalf F r11)
  let r2 := fUhalf F c
  let r3 := fUhalf F (fUint F (c >>> fhSize F + r11 >>> fhSize F))
  (fUint F (r3 <<< fhSize F) ||| r2, fUint F (r1 <<< fhSize F) ||| r0)

/-- A round of the loop of `divrem_u`. -/
def divremRound (b : Nat) (a : Nat × Nat) : Nat × Nat :=
  let ab := a.1 >>> (F.size - 1)
  let a1 := fUint F (a.1 <<< 1) ||| a.2 >>> (F.size - 1)
  let take : Bool := ab ≠ 0 ∨ b ≤ a1
  let a1 := if take = true then fUint F (2 ^ F.size + a1 - b) else a1
  (a1, fUint F (a.2 <<< 1) ||| (if take = true then 1 else 0))

/-- `divrem_u` by bits: quotient and remainder. -/
def divremUBits (a1 a0 b : Nat) : Except Fault (Nat × Nat) :=
  if a1 < b then
    let a := (divremRound F b)^[F.size] (a1, a0)
    .ok (a.2, a.1)
  else .error .abort

/-- The loop of `sqrtrem_u` with `divrem_u`. -/
def sqrtLoopWords (a1 a0 s : Nat) : Except Fault Nat := do
  let (q, _) ← divremUBits F a1 a0 s
  let u := fUint F (q + s) / 2
  if s ≤ u then .ok s else sqrtLoopWords a1 a0 u
termination_by s

/-- `sqrtrem_u` in words. -/
def sqrtremUWords (a1 a0 : Nat) : Except Fault (Bool × Nat) :=
  if a1 = 0 ∧ a0 = 0 then .ok (false, 0)
  else do
    let l := if a1 ≠ 0 then 2 * F.size - clz F.size (a1 - 1) else F.size - clz F.size (a0 - 1)
    let s ← sqrtLoopWords F a1 a0 (fUint F (1 <<< ((l + 1) / 2)))
    let (sq1, sq0) := mulUHalves F s s
    return (sq0 ≠ a0 ∨ sq1 ≠ a1, s)

end HadBadge
