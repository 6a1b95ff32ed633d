import Mathlib.Algebra.Order.Floor.Semifield
import Mathlib.Data.Rat.Floor

/-! The sizes of the main window for a screen resolution. An `int` is stored as
`uint16_t`, divided by the size of the reference screen, and the quotient stored
as `uint8_t` before it scales anything. -/
namespace Gymansie.WindowScaling

/-- A positive `int`. -/
structure Metric where
  value : Int
  positive : 0 < value
  bounded : value < 2 ^ 31

/-- What `GetSystemMetrics` reports for `SM_CXSCREEN` and `SM_CYSCREEN`. -/
structure Report where
  width : Metric
  height : Metric

structure SCREEN where
  screen_width : UInt16
  screen_height : UInt16

def getScreenResolution (report : Report) : SCREEN where
  screen_width := UInt16.ofInt report.width.value
  screen_height := UInt16.ofInt report.height.value

/-- Conversion to `uint8_t`, of a quotient that is not negative. -/
def toUint8 (quotient : ℚ) : UInt8 := UInt8.ofNat ⌊quotient⌋₊

structure Mods where
  y_mod : UInt8
  x_mod : UInt8

def updateResMod (report : Report) : Mods :=
  let screen := getScreenResolution report
  { y_mod := toUint8 ((screen.screen_height.toNat : ℚ) / 1080)
    x_mod := toUint8 ((screen.screen_width.toNat : ℚ) / 1920) }

structure Bar where
  fixedHeight : Nat
  spacing : Nat

def setupMainPanel (mods : Mods) : Bar where
  fixedHeight := 30 * mods.y_mod.toNat
  spacing := 10 * mods.y_mod.toNat / 2

structure Window where
  width : Nat
  height : Nat
  bar : Bar

/-- The constructor `MainWindow::MainWindow`. -/
def mainWindow (report : Report) : Window :=
  let mods := updateResMod report
  { width := 400 * mods.y_mod.toNat
    height := 300 * mods.x_mod.toNat
    bar := setupMainPanel mods }

def Positive (window : Window) : Prop :=
  1 ≤ window.width ∧ 1 ≤ window.height ∧ 1 ≤ window.bar.fixedHeight

def NoSmaller (first second : Window) : Prop :=
  first.width ≤ second.width ∧ first.height ≤ second.height ∧
    first.bar.fixedHeight ≤ second.bar.fixedHeight

/-- Nowhere larger. -/
def Within (first second : Report) : Prop :=
  first.width.value ≤ second.width.value ∧ first.height.value ≤ second.height.value

/-- What is wanted of two reports: the first gives sizes of at least 1, and a
second one that is nowhere smaller gives none that is smaller. -/
def Scales (first second : Report) : Prop :=
  Positive (mainWindow first) ∧
    (Within first second → NoSmaller (mainWindow first) (mainWindow second))

/-! ### Through the conversions -/

theorem ofInt_toNat (metric : Metric) :
    ((UInt16.ofInt metric.value).toNat : Int) = metric.value % 65536 := by
  have stored : (UInt16.ofInt metric.value).toNat = (metric.value % 65536).toNat % 65536 :=
    UInt16.toNat_ofNat'
  omega

/-- A quotient of a `uint16_t` by 1080 or more fits. -/
theorem toUint8_div (stored : UInt16) {unit : Nat} (large : 1080 ≤ unit) :
    (toUint8 ((stored.toNat : ℚ) / unit)).toNat = stored.toNat / unit := by
  have below : stored.toNat < 65536 := stored.toNat_lt
  have fits : stored.toNat / unit < 256 := by
    apply Nat.div_lt_of_lt_mul
    omega
  rw [toUint8, Nat.floor_div_eq_div]
  exact UInt8.toNat_ofNat_of_lt' fits

theorem y_mod_eq (report : Report) :
    ((updateResMod report).y_mod.toNat : Int) = report.height.value % 65536 / 1080 := by
  have stored := ofInt_toNat report.height
  have divided := toUint8_div (UInt16.ofInt report.height.value) (le_refl 1080)
  rw [Nat.cast_ofNat] at divided
  rw [updateResMod, getScreenResolution, divided]
  omega

theorem x_mod_eq (report : Report) :
    ((updateResMod report).x_mod.toNat : Int) = report.width.value % 65536 / 1920 := by
  have stored := ofInt_toNat report.width
  have divided := toUint8_div (UInt16.ofInt report.width.value) (by decide : 1080 ≤ 1920)
  rw [Nat.cast_ofNat] at divided
  rw [updateResMod, getScreenResolution, divided]
  omega

theorem positive_iff (report : Report) :
    Positive (mainWindow report) ↔
      1920 ≤ report.width.value % 65536 ∧ 1080 ≤ report.height.value % 65536 := by
  have vertical := y_mod_eq report
  have horizontal := x_mod_eq report
  simp only [Positive, mainWindow, setupMainPanel]
  omega

theorem noSmaller_iff (first second : Report) :
    NoSmaller (mainWindow first) (mainWindow second) ↔
      1920 * (first.width.value % 65536 / 1920) ≤ second.width.value % 65536 ∧
        1080 * (first.height.value % 65536 / 1080) ≤ second.height.value % 65536 := by
  have vertical := y_mod_eq first
  have horizontal := x_mod_eq first
  have vertical' := y_mod_eq second
  have horizontal' := x_mod_eq second
  simp only [NoSmaller, mainWindow, setupMainPanel]
  omega

/-- Only the conversion to `uint16_t` can make a size smaller. -/
theorem noSmaller_of_fits {first second : Report} (within : Within first second)
    (width : second.width.value < 65536) (height : second.height.value < 65536) :
    NoSmaller (mainWindow first) (mainWindow second) := by
  obtain ⟨wider, higher⟩ := within
  have positive := first.width.positive
  have positive' := first.height.positive
  refine (noSmaller_iff first second).mpr ⟨?_, ?_⟩ <;> omega

/-- For every two reports: the sizes are positive and do not shrink exactly if
the first has 1920 by 1080 left in 16 bits, and the second has there the whole
multiples of 1920 and 1080 that the first has. -/
theorem scales_iff (first second : Report) :
    Scales first second ↔
      (1920 ≤ first.width.value % 65536 ∧ 1080 ≤ first.height.value % 65536) ∧
        (Within first second →
          1920 * (first.width.value % 65536 / 1920) ≤ second.width.value % 65536 ∧
            1080 * (first.height.value % 65536 / 1080) ≤ second.height.value % 65536) :=
  and_congr (positive_iff first) (imp_congr_right fun _ => noSmaller_iff first second)

/-- A screen of 1366 by 768. -/
def laptop : Report := ⟨⟨1366, by decide, by decide⟩, ⟨768, by decide, by decide⟩⟩

theorem laptop_vanishes : ¬ Scales laptop laptop := by
  rintro ⟨positive, -⟩
  exact absurd ((positive_iff laptop).mp positive) (by decide)

end Gymansie.WindowScaling
