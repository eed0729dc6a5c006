import Mathlib.Data.List.DropRight
import PhantomShare.Cli.Client
import PhantomShare.Foundations.Binary64

/-!
# The lifetime of a new secret

`parseTTL` of `secrets.go` turns the text behind `--expires` into hours, and the
server accepts from 1 to 168 of them. A product that leaves the 64 bits of an
`int` or a `time.Duration` wraps on the way, and may come back within the bound.
-/
namespace PhantomShare.Cli
open Foundations Internet Binary64

/-! ### Library functions -/

/-- `strings.TrimSpace`. -/
def trimSpace (s : Text) : Text := (s.dropWhile isSpace).rdropWhile isSpace

/-- `strings.ToLower`. The lower cases of letters beyond ASCII are left out: none of them is a digit
or one of the suffixes. -/
def toLower (s : Text) : Text := s.map Char.toLower

/-- A nonempty row of digits. -/
def parseDigits (s : Text) : Option ℤ := if isAsciiDigits s then some (decimalValue s) else none

/-- `strconv.Atoi` on 64 bits. -/
def atoi (s : Text) : Option ℤ :=
  let number := match s with
    | '-' :: digits => (parseDigits digits).map fun n => -n
    | '+' :: digits => parseDigits digits
    | digits => parseDigits digits
  number.filter fun n => Fits64 n

/-- `time.Hour`. -/
def hour : ℤ := 60 * minute

/-- `Duration.Hours`, a `float64`. -/
def durationHours (d : ℤ) : ℚ :=
  rounded (rounded (d.tdiv hour) + rounded (rounded (d.tmod hour) / 3600000000000))

/-- The conversion of a `float64` to an `int`. -/
def truncated (q : ℚ) : ℤ := if 0 ≤ q then ⌊q⌋ else ⌈q⌉

/-! ### The parser and the server -/

/-- The hours of a duration in minutes. -/
def minutesToHours (n : ℤ) : ℤ :=
  let d := wrap64 (n * minute)
  let hours := truncated (durationHours d)
  if hours < 1 then 1 else hours

/-- `parseTTL`; `none` is an error. -/
def parseTTL (s : Text) : Option ℤ :=
  let s := toLower (trimSpace s)
  if s.getLast? = some 'd' then (atoi s.dropLast).map fun n => wrap64 (n * 24)
  else if s.getLast? = some 'h' then atoi s.dropLast
  else if s.getLast? = some 'm' then (atoi s.dropLast).map minutesToHours
  else atoi s

/-- The bounds of `SecretCreate.ttl_hours`. -/
def ttlHoursValid (ttlHours : ℤ) : Bool := 1 ≤ ttlHours && ttlHours ≤ 168

/-! ### What the text asks for -/

inductive TimeUnit where
  | days
  | hours
  | minutes
  deriving DecidableEq, Repr

/-- The unit and the number of an accepted text. -/
def requested (s : Text) : Option (TimeUnit × ℤ) :=
  let s := toLower (trimSpace s)
  match s.getLast? with
  | some 'd' => (atoi s.dropLast).map fun n => (.days, n)
  | some 'h' => (atoi s.dropLast).map fun n => (.hours, n)
  | some 'm' => (atoi s.dropLast).map fun n => (.minutes, n)
  | _ => (atoi s).map fun n => (.hours, n)

/-- The hours that the text asks for. -/
def lifetime : TimeUnit → ℤ → ℤ
  | .days, n => 24 * n
  | .hours, n => n
  | .minutes, n => max 1 (n / 60)

/-- The hours that `parseTTL` finds. -/
def found : TimeUnit → ℤ → ℤ
  | .days, n => wrap64 (n * 24)
  | .hours, n => n
  | .minutes, n => minutesToHours n

/-- The product fits, or wraps from far in the past to less than two hours. -/
def Unwrapped : TimeUnit → ℤ → Prop
  | .days, n => Fits64 (24 * n)
  | .hours, _ => True
  | .minutes, n => Fits64 (60000000000 * n) ∨ n < 0 ∧ wrap64 (60000000000 * n) < 2 * hour

theorem parseTTL_eq (s : Text) : parseTTL s = (requested s).map fun r => found r.1 r.2 := by
  unfold parseTTL requested
  generalize toLower (trimSpace s) = s
  simp only
  split
  · rename_i hd
    simp [hd, Function.comp_def, found]
  · split
    · rename_i hd hh
      simp [hh, Function.comp_def, found]
    · split
      · rename_i hd hh hm
        simp [hm, Function.comp_def, found]
      · rename_i hd hh hm
        split
        · contradiction
        · contradiction
        · contradiction
        · simp [Function.comp_def, found]

/-! ### Hours of a duration -/

theorem hour_eq : hour = 3600000000000 := by decide

/-- A result that is not positive stays so. -/
theorem rounded_nonpos {q : ℚ} (h : q ≤ 0) : rounded q ≤ 0 := by
  have hscaled : q / spacing q ≤ 0 := div_nonpos_of_nonpos_of_nonneg h (spacing_pos q).le
  have hnearest : nearest (q / spacing q) ≤ 0 := by
    have hclose := abs_le.mp (abs_nearest_sub_le (q / spacing q))
    have hlt : (nearest (q / spacing q) : ℚ) < 1 := by linarith
    have hlt' : nearest (q / spacing q) < 1 := by exact_mod_cast hlt
    omega
  exact mul_nonpos_of_nonpos_of_nonneg (by exact_mod_cast hnearest) (spacing_pos q).le

theorem truncated_nonpos {q : ℚ} (h : q ≤ 0) : truncated q ≤ 0 := by
  unfold truncated
  split
  · rename_i hpos
    simp [le_antisymm h hpos]
  · exact Int.ceil_le.mpr (by simpa using h)

theorem truncated_eq_floor {q : ℚ} (h : 0 ≤ q) : truncated q = ⌊q⌋ := if_pos h

/-- No duration in the past has a whole hour. -/
theorem durationHours_nonpos {d : ℤ} (h : d ≤ 0) : durationHours d ≤ 0 := by
  have hquot : d.tdiv hour ≤ 0 := by
    have hneg := Int.tdiv_nonneg (a := -d) (b := hour) (by omega) (by decide)
    rw [Int.neg_tdiv] at hneg
    omega
  have hrem : d.tmod hour ≤ 0 := by
    have hneg := Int.tmod_nonneg (a := -d) hour (by omega)
    rw [Int.neg_tmod] at hneg
    omega
  have hwhole : rounded (d.tdiv hour) ≤ 0 := rounded_nonpos (by exact_mod_cast hquot)
  have hpart : rounded (d.tmod hour) ≤ 0 := rounded_nonpos (by exact_mod_cast hrem)
  have hratio : rounded (rounded (d.tmod hour) / 3600000000000) ≤ 0 :=
    rounded_nonpos (div_nonpos_of_nonpos_of_nonneg hpart (by norm_num))
  exact rounded_nonpos (by linarith)

/-- The fraction of an hour, rounded. -/
def partOf (d : ℤ) : ℚ := rounded (((d % hour : ℤ) : ℚ) / 3600000000000)

/-- The conversions to `float64` are exact. -/
theorem durationHours_eq {d : ℤ} (hpos : 0 ≤ d) (hfits : Fits64 d) :
    durationHours d = rounded (((d / hour : ℤ) : ℚ) + partOf d) := by
  unfold Fits64 at hfits
  have hwhole : |d / hour| < 2 ^ 53 := by
    rw [hour_eq, abs_lt]
    omega
  have hpart : |d % hour| < 2 ^ 53 := by
    rw [hour_eq, abs_lt]
    omega
  rw [durationHours, Int.tdiv_eq_ediv_of_nonneg hpos, Int.tmod_eq_emod_of_nonneg hpos,
    rounded_intCast hwhole, rounded_intCast hpart, partOf]

/-- Rounding neither removes the fraction nor fills it up. -/
theorem partOf_near (d : ℤ) :
    |partOf d - ((d % hour : ℤ) : ℚ) / 3600000000000| ≤ 1 / 2 ^ 54 := by
  have hlower : 0 ≤ d % hour := Int.emod_nonneg d (by decide)
  have hupper : d % hour < 3600000000000 := hour_eq ▸ Int.emod_lt_of_pos d (by decide)
  by_cases hzero : d % hour = 0
  · simp [partOf, hzero, rounded, nearest]
  · have hratio : |((d % hour : ℤ) : ℚ) / 3600000000000| < 2 ^ (0 : ℤ) := by
      have hlt : ((d % hour : ℤ) : ℚ) < 3600000000000 := by exact_mod_cast hupper
      have hnonneg : (0 : ℚ) ≤ ((d % hour : ℤ) : ℚ) := by exact_mod_cast hlower
      rw [abs_of_nonneg (div_nonneg hnonneg (by norm_num)), div_lt_iff₀ (by norm_num)]
      simpa using hlt
    have hne : ((d % hour : ℤ) : ℚ) / 3600000000000 ≠ 0 :=
      div_ne_zero (by exact_mod_cast hzero) (by norm_num)
    have hclose := abs_rounded_sub_le hne hratio
    norm_num at hclose ⊢
    exact hclose

/-- The whole hours of a duration of less than 256 hours are not rounded away. -/
theorem truncated_durationHours {d : ℤ} (hpos : 0 ≤ d) (h : d < 256 * hour) :
    truncated (durationHours d) = d / hour := by
  have hfits : Fits64 d := by
    rw [hour_eq] at h
    unfold Fits64
    omega
  have hwhole : 0 ≤ d / hour ∧ d / hour < 256 := by
    rw [hour_eq] at h ⊢
    omega
  have hquot : (0 : ℚ) ≤ ((d / hour : ℤ) : ℚ) ∧ ((d / hour : ℤ) : ℚ) ≤ 255 := by
    constructor
    · exact_mod_cast hwhole.1
    · exact_mod_cast Int.le_of_lt_add_one hwhole.2
  rw [durationHours_eq hpos hfits]
  by_cases hzero : d % hour = 0
  · have hpart : partOf d = 0 := by simp [partOf, hzero, rounded, nearest]
    have hexact : |d / hour| < 2 ^ 53 := by
      rw [abs_lt]
      omega
    rw [hpart, add_zero, rounded_intCast hexact, truncated_eq_floor hquot.1, Int.floor_intCast]
  · have hnear := abs_le.mp (partOf_near d)
    have hrem : (1 : ℚ) ≤ ((d % hour : ℤ) : ℚ) ∧ ((d % hour : ℤ) : ℚ) ≤ 3599999999999 := by
      have hlower : 0 ≤ d % hour := Int.emod_nonneg d (by decide)
      have hupper : d % hour < 3600000000000 := hour_eq ▸ Int.emod_lt_of_pos d (by decide)
      constructor
      · exact_mod_cast (by omega : 1 ≤ d % hour)
      · exact_mod_cast (by omega : d % hour ≤ 3599999999999)
    generalize ((d % hour : ℤ) : ℚ) = r at hnear hrem
    have hsum : ((d / hour : ℤ) : ℚ) + partOf d ≠ 0 := by
      norm_num at hnear
      intro hsum
      linarith
    have hsize : |((d / hour : ℤ) : ℚ) + partOf d| < 2 ^ (8 : ℤ) := by
      norm_num at hnear ⊢
      rw [abs_lt]
      constructor <;> linarith
    have hclose := abs_le.mp (abs_rounded_sub_le hsum hsize)
    norm_num at hnear hclose
    have hbounds : ((d / hour : ℤ) : ℚ) ≤ rounded (((d / hour : ℤ) : ℚ) + partOf d) ∧
        rounded (((d / hour : ℤ) : ℚ) + partOf d) < ((d / hour : ℤ) : ℚ) + 1 := by
      constructor <;> linarith
    rw [truncated_eq_floor (hquot.1.trans hbounds.1)]
    exact Int.floor_eq_iff.mpr hbounds

/-- From 256 hours on there are too many of them. -/
theorem durationHours_ge {d : ℤ} (h : 256 * hour ≤ d) (hfits : Fits64 d) :
    255 ≤ truncated (durationHours d) := by
  have hpos : 0 ≤ d := by
    rw [hour_eq] at h
    omega
  have hwhole : 256 ≤ d / hour ∧ d / hour < 4194304 := by
    unfold Fits64 at hfits
    rw [hour_eq] at h ⊢
    omega
  have hquot : (256 : ℚ) ≤ ((d / hour : ℤ) : ℚ) ∧ ((d / hour : ℤ) : ℚ) < 4194304 := by
    constructor
    · exact_mod_cast hwhole.1
    · exact_mod_cast hwhole.2
  have hrem : (0 : ℚ) ≤ ((d % hour : ℤ) : ℚ) ∧ ((d % hour : ℤ) : ℚ) < 3600000000000 := by
    constructor
    · exact_mod_cast Int.emod_nonneg d (by decide)
    · have hupper : d % hour < 3600000000000 := hour_eq ▸ Int.emod_lt_of_pos d (by decide)
      exact_mod_cast hupper
  have hnear := abs_le.mp (partOf_near d)
  generalize ((d % hour : ℤ) : ℚ) = r at hnear hrem
  norm_num at hnear
  have hsum : ((d / hour : ℤ) : ℚ) + partOf d ≠ 0 := by
    intro hsum
    linarith
  have hsize : |((d / hour : ℤ) : ℚ) + partOf d| < 2 ^ (23 : ℤ) := by
    norm_num
    rw [abs_lt]
    constructor <;> linarith
  have hclose := abs_le.mp (abs_rounded_sub_le hsum hsize)
  norm_num at hclose
  have hbound : (255 : ℚ) ≤ rounded (((d / hour : ℤ) : ℚ) + partOf d) := by linarith
  rw [durationHours_eq hpos hfits, truncated_eq_floor (le_trans (by norm_num) hbound)]
  exact Int.le_floor.mpr (by exact_mod_cast hbound)

/-- Within the bound of the server the hours of a number of minutes are those of the wrapped
product. -/
theorem minutesToHours_eq {n : ℤ} (h : minutesToHours n ≤ 168) :
    minutesToHours n = max 1 (wrap64 (n * minute) / hour) := by
  have hfits := fits64_wrap64 (n * minute)
  simp only [minutesToHours] at h ⊢
  generalize wrap64 (n * minute) = d at h hfits ⊢
  rcases le_or_gt d 0 with hneg | hpos
  · have htrunc := truncated_nonpos (durationHours_nonpos hneg)
    have hquot : d / hour ≤ 0 := by
      rw [hour_eq]
      omega
    rw [if_pos (by omega), max_eq_left (by omega)]
  · rcases lt_or_ge d (256 * hour) with hsmall | hlarge
    · rw [truncated_durationHours hpos.le hsmall]
      split
      · rename_i hless
        exact (max_eq_left (by omega)).symm
      · rename_i hmore
        exact (max_eq_right (by omega)).symm
    · have hge := durationHours_ge hlarge hfits
      rw [if_neg (by omega)] at h
      omega

/-- Days and hours beyond 64 bits are far from the bound of the server. -/
theorem found_eq_lifetime_iff {unit : TimeUnit} {n : ℤ} (hlower : 1 ≤ found unit n)
    (hupper : found unit n ≤ 168) : found unit n = lifetime unit n ↔ Unwrapped unit n := by
  cases unit with
  | days =>
    simp only [found, lifetime, Unwrapped, Int.mul_comm n 24]
    exact ⟨fits_of_wrap64_eq, wrap64_of_fits⟩
  | hours => simp [found, lifetime, Unwrapped]
  | minutes =>
    have hminute : n * minute = 60000000000 * n := by
      rw [show minute = 60000000000 from rfl, Int.mul_comm]
    simp only [found] at hupper
    simp only [found, lifetime, Unwrapped]
    rw [minutesToHours_eq hupper, hminute]
    rw [minutesToHours_eq hupper, hminute] at hupper
    by_cases hfits : Fits64 (60000000000 * n)
    · simp only [hfits, true_or, iff_true]
      rw [wrap64_of_fits hfits, hour_eq]
      omega
    · simp only [hfits, false_or]
      unfold Fits64 at hfits
      rw [hour_eq] at hupper ⊢
      generalize wrap64 (60000000000 * n) = d at hupper ⊢
      omega

/-- An accepted text within the bound of the server grants the requested lifetime exactly when the
product of its number and its unit has not wrapped into the bound. -/
theorem parseTTL_exact_iff (s : Text) (ttlHours : ℤ) (haccepts : parseTTL s = some ttlHours)
    (hvalid : ttlHoursValid ttlHours = true) :
    ∃ unit n, requested s = some (unit, n) ∧ (ttlHours = lifetime unit n ↔ Unwrapped unit n) := by
  rw [parseTTL_eq] at haccepts
  obtain ⟨⟨unit, n⟩, hrequested, rfl⟩ := Option.map_eq_some_iff.mp haccepts
  simp only [ttlHoursValid, Bool.and_eq_true, decide_eq_true_eq] at hvalid
  exact ⟨unit, n, hrequested, found_eq_lifetime_iff hvalid.1 hvalid.2⟩

/-- Ninety minutes count as one hour. -/
example : parseTTL "14d".toList = some 336 ∧ parseTTL " 90M ".toList = some 1 := by decide +kernel

theorem parseTTL_exact_sample :
    ∃ unit n, requested " 7D ".toList = some (unit, n) ∧
      ((168 : ℤ) = lifetime unit n ↔ Unwrapped unit n) :=
  parseTTL_exact_iff " 7D ".toList 168 (by decide +kernel) (by decide)

/-- `2 ^ 61 + 1` days are granted as one day, and 584 years of minutes as one hour. -/
theorem parseTTL_wraps :
    requested "2305843009213693953d".toList = some (.days, 2305843009213693953) ∧
    parseTTL "2305843009213693953d".toList = some 24 ∧ ttlHoursValid 24 = true ∧
    (24 : ℤ) ≠ lifetime .days 2305843009213693953 ∧
    requested "307445735m".toList = some (.minutes, 307445735) ∧
    parseTTL "307445735m".toList = some 1 ∧ ttlHoursValid 1 = true ∧
    (1 : ℤ) ≠ lifetime .minutes 307445735 := by
  decide +kernel

end PhantomShare.Cli
