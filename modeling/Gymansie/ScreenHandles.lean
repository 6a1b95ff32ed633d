import Gymansie.UnorderedMap
import Gymansie.Runs

/-! The device context that a `SCREEN` holds. The constructor obtains it and the
destructor releases it, but the moves are defaulted and `HDC` is a plain pointer:
a move copies the handle and leaves it in the source too, and a move assignment
forgets the handle it overwrites. -/
namespace Gymansie.ScreenHandles
variable {Loc HMONITOR HDC : Type}

structure SCREEN (HMONITOR HDC : Type) where
  screen_width : UInt16
  screen_height : UInt16
  /-- Not set before `getSystemDPI`. -/
  system_dpiX : Option UInt16
  system_dpiY : Option UInt16
  hMonitor : HMONITOR
  screen : HDC

/-- What a constructor gets from the system: `GetSystemMetrics` for
`SM_CXSCREEN` and `SM_CYSCREEN`, and `GetDC(nullptr)`. -/
structure Report (HDC : Type) where
  cxScreen : Int
  cyScreen : Int
  dc : HDC

namespace SCREEN

/-- The constructor; what it stores from `GetMonitorInfo` it overwrites at once. -/
def construct (monitor : HMONITOR) (report : Report HDC) : SCREEN HMONITOR HDC where
  screen_width := UInt16.ofInt report.cxScreen
  screen_height := UInt16.ofInt report.cyScreen
  system_dpiX := none
  system_dpiY := none
  hMonitor := monitor
  screen := report.dc

def getScreenResolution (self : SCREEN HMONITOR HDC) (cxScreen cyScreen : Int) :
    SCREEN HMONITOR HDC :=
  { self with screen_width := UInt16.ofInt cxScreen, screen_height := UInt16.ofInt cyScreen }

/-- `GetDeviceCaps` of the held device context for `LOGPIXELSX` and `LOGPIXELSY`. -/
def getSystemDPI (self : SCREEN HMONITOR HDC) (logPixelsX logPixelsY : Int) : SCREEN HMONITOR HDC :=
  { self with
    system_dpiX := some (UInt16.ofInt logPixelsX), system_dpiY := some (UInt16.ofInt logPixelsY) }

end SCREEN

abbrev World (Loc HMONITOR HDC : Type) := UnorderedMap Loc (SCREEN HMONITOR HDC)

/-- Moves and destructions show the handles that they deal with. -/
inductive Event (Loc HMONITOR HDC : Type) where
  | construct (self : Loc) (monitor : HMONITOR) (report : Report HDC)
  | moveConstruct (self other : Loc) (copied : HDC)
  | moveAssign (self other : Loc) (overwritten copied : HDC)
  | getScreenResolution (self : Loc) (cxScreen cyScreen : Int)
  | getSystemDPI (self : Loc) (logPixelsX logPixelsY : Int)
  /-- The destructor with `ReleaseDC(nullptr, screen)`. -/
  | destroy (self : Loc) (released : HDC)

/-! ### Handles along a list of events -/

namespace Event

def obtains : Event Loc HMONITOR HDC → Option HDC
  | .construct _ _ report => some report.dc
  | _ => none

def moves : Event Loc HMONITOR HDC → Option HDC
  | .moveConstruct _ _ copied => some copied
  | _ => none

def assigns : Event Loc HMONITOR HDC → Option HDC
  | .moveAssign _ _ _ copied => some copied
  | _ => none

def overwrites : Event Loc HMONITOR HDC → Option HDC
  | .moveAssign _ _ overwritten _ => some overwritten
  | _ => none

def releases : Event Loc HMONITOR HDC → Option HDC
  | .destroy _ released => some released
  | _ => none

end Event

def handles (shows : Event Loc HMONITOR HDC → Option HDC) (events : List (Event Loc HMONITOR HDC)) :
    Multiset HDC :=
  (events.filterMap shows : List HDC)

theorem handles_cons (shows : Event Loc HMONITOR HDC → Option HDC) (event : Event Loc HMONITOR HDC)
    (events : List (Event Loc HMONITOR HDC)) :
    handles shows (event :: events) = handles shows [event] + handles shows events := by
  rw [handles, handles, handles, Multiset.coe_add, ← List.filterMap_append, List.singleton_append]

theorem card_assigns (events : List (Event Loc HMONITOR HDC)) :
    (handles Event.assigns events).card = (handles Event.overwrites events).card := by
  induction events with
  | nil => rfl
  | cons event events ih =>
    rw [handles_cons _ event events, handles_cons _ event events, Multiset.card_add,
      Multiset.card_add, ih, Nat.add_right_cancel_iff]
    cases event <;> rfl

theorem moves_eq_zero_iff (events : List (Event Loc HMONITOR HDC)) :
    handles Event.moves events = 0 ↔
      ∀ self other copied, Event.moveConstruct self other copied ∉ events := by
  rw [handles, Multiset.coe_eq_zero, List.filterMap_eq_nil_iff]
  constructor
  · intro none self other copied member
    exact absurd (none _ member) (Option.some_ne_none copied)
  · intro never event member
    cases event with
    | moveConstruct self other copied => exact absurd member (never self other copied)
    | _ => rfl

variable [DecidableEq Loc]

inductive Step : World Loc HMONITOR HDC → Event Loc HMONITOR HDC → World Loc HMONITOR HDC → Prop where
  | construct {world self monitor report} (free : world.find? self = none) :
      Step world (.construct self monitor report) (world.set self (.construct monitor report))
  | moveConstruct {world self other object} (free : world.find? self = none)
      (source : world.find? other = some object) :
      Step world (.moveConstruct self other object.screen) (world.set self object)
  | moveAssign {world self other old object} (target : world.find? self = some old)
      (source : world.find? other = some object) :
      Step world (.moveAssign self other old.screen object.screen) (world.set self object)
  | getScreenResolution {world self object cxScreen cyScreen}
      (found : world.find? self = some object) :
      Step world (.getScreenResolution self cxScreen cyScreen)
        (world.set self (object.getScreenResolution cxScreen cyScreen))
  | getSystemDPI {world self object logPixelsX logPixelsY} (found : world.find? self = some object) :
      Step world (.getSystemDPI self logPixelsX logPixelsY)
        (world.set self (object.getSystemDPI logPixelsX logPixelsY))
  | destroy {world self object} (found : world.find? self = some object) :
      Step world (.destroy self object.screen) (world.erase self)

def held (world : World Loc HMONITOR HDC) : Multiset HDC := world.values.map (·.screen)

theorem held_set (world : World Loc HMONITOR HDC) (self : Loc) (object : SCREEN HMONITOR HDC) :
    held (world.set self object) = object.screen ::ₘ held (world.erase self) := by
  rw [held, UnorderedMap.values_set, Multiset.map_cons, held]

theorem held_of_find? {world : World Loc HMONITOR HDC} {self : Loc} {object : SCREEN HMONITOR HDC}
    (found : world.find? self = some object) :
    held world = object.screen ::ₘ held (world.erase self) := by
  rw [held, UnorderedMap.values_of_find? found, Multiset.map_cons, held]

theorem held_update {world : World Loc HMONITOR HDC} {self : Loc}
    {object updated : SCREEN HMONITOR HDC} (found : world.find? self = some object)
    (same : updated.screen = object.screen) : held (world.set self updated) = held world := by
  rw [held_set, held_of_find? found, same]

theorem held_step {world after : World Loc HMONITOR HDC} {event : Event Loc HMONITOR HDC}
    (step : Step world event after) :
    held world + (handles Event.obtains [event] + handles Event.moves [event] +
        handles Event.assigns [event]) =
      held after + (handles Event.releases [event] + handles Event.overwrites [event]) := by
  cases step with
  | @construct self monitor report free =>
    rw [held_set, UnorderedMap.erase_of_none free]
    change held world + ({report.dc} + 0 + 0) = report.dc ::ₘ held world + (0 + 0)
    rw [add_zero, add_zero, add_zero, add_zero, ← Multiset.singleton_add, add_comm]
  | @moveConstruct self other object free source =>
    rw [held_set, UnorderedMap.erase_of_none free]
    change held world + (0 + {object.screen} + 0) = object.screen ::ₘ held world + (0 + 0)
    rw [zero_add, add_zero, add_zero, add_zero, ← Multiset.singleton_add, add_comm]
  | @moveAssign self other old object target source =>
    rw [held_set, held_of_find? target]
    change old.screen ::ₘ held (world.erase self) + (0 + 0 + {object.screen}) =
      object.screen ::ₘ held (world.erase self) + (0 + {old.screen})
    rw [zero_add, zero_add, zero_add, ← Multiset.singleton_add, ← Multiset.singleton_add]
    ac_rfl
  | @getScreenResolution self object cxScreen cyScreen found =>
    have kept : held (world.set self (object.getScreenResolution cxScreen cyScreen)) = held world :=
      held_update found rfl
    rw [kept]
    rfl
  | @getSystemDPI self object logPixelsX logPixelsY found =>
    have kept : held (world.set self (object.getSystemDPI logPixelsX logPixelsY)) = held world :=
      held_update found rfl
    rw [kept]
    rfl
  | @destroy self object found =>
    rw [held_of_find? found]
    change object.screen ::ₘ held (world.erase self) + (0 + 0 + 0) =
      held (world.erase self) + ({object.screen} + 0)
    rw [add_zero, add_zero, add_zero, add_zero, ← Multiset.singleton_add, add_comm]

/-- What is obtained or copied is released, overwritten or still held. -/
theorem held_run {world after : World Loc HMONITOR HDC} {events : List (Event Loc HMONITOR HDC)}
    (run : Runs.Run Step world events after) :
    held world + (handles Event.obtains events + handles Event.moves events +
        handles Event.assigns events) =
      held after + (handles Event.releases events + handles Event.overwrites events) := by
  induction run with
  | done => rfl
  | @next world event middle events after head _ ih =>
    have first := held_step head
    calc
      _ = held world + (handles Event.obtains [event] + handles Event.moves [event] +
            handles Event.assigns [event]) + (handles Event.obtains events +
              handles Event.moves events + handles Event.assigns events) := by
        simp only [handles_cons _ event events]
        ac_rfl
      _ = held middle + (handles Event.obtains events + handles Event.moves events +
            handles Event.assigns events) + (handles Event.releases [event] +
              handles Event.overwrites [event]) := by
        rw [first]
        ac_rfl
      _ = _ := by
        rw [ih]
        simp only [handles_cons _ event events]
        ac_rfl

/-- `updateResMod` has its screen for itself and leaves nothing behind. -/
theorem updateResMod_run {world : World Loc HMONITOR HDC} {screen : Loc}
    (free : world.find? screen = none) (monitor : HMONITOR) (report : Report HDC)
    (cxScreen cyScreen : Int) :
    Runs.Run Step world [.construct screen monitor report,
      .getScreenResolution screen cxScreen cyScreen, .destroy screen report.dc] world := by
  have found (world : World Loc HMONITOR HDC) (object : SCREEN HMONITOR HDC) :
      (world.set screen object).find? screen = some object := by
    rw [UnorderedMap.find?_set, if_pos rfl]
  have back : ((world.set screen (.construct monitor report)).set screen
      ((SCREEN.construct monitor report).getScreenResolution cxScreen cyScreen)).erase screen = world := by
    ext place : 1
    rw [UnorderedMap.find?_erase, UnorderedMap.find?_set, UnorderedMap.find?_set]
    split
    · subst place
      exact free.symm
    · rfl
  have last := Step.destroy (found (world.set screen (.construct monitor report))
    ((SCREEN.construct monitor report).getScreenResolution cxScreen cyScreen))
  rw [back] at last
  exact .next (.construct free) (.next (.getScreenResolution (found world _)) (.next last (.done world)))

/-- For every run that begins and ends without objects: each construction by a
move adds one release, and every device context is released exactly as often as
it was obtained if and only if there was no such construction and move
assignments brought in as many copies of each handle as they overwrote. -/
theorem released_iff {events : List (Event Loc HMONITOR HDC)}
    (run : Runs.Run Step (∅ : World Loc HMONITOR HDC) events ∅) :
    (handles Event.releases events).card =
        (handles Event.obtains events).card + (handles Event.moves events).card ∧
      (handles Event.releases events = handles Event.obtains events ↔
        (∀ self other copied, Event.moveConstruct self other copied ∉ events) ∧
          handles Event.assigns events = handles Event.overwrites events) := by
  have total := held_run run
  rw [add_right_inj] at total
  constructor
  · have sizes := congrArg Multiset.card total
    rw [Multiset.card_add, Multiset.card_add, Multiset.card_add, card_assigns,
      Nat.add_right_cancel_iff] at sizes
    exact sizes.symm
  rw [← moves_eq_zero_iff]
  constructor
  · intro balanced
    rw [balanced, add_assoc, add_right_inj] at total
    have sizes := congrArg Multiset.card total
    rw [Multiset.card_add, card_assigns, Nat.add_eq_right] at sizes
    obtain none := Multiset.card_eq_zero.mp sizes
    rw [none, zero_add] at total
    exact ⟨none, total⟩
  · rintro ⟨none, same⟩
    rw [none, add_zero, same, add_left_inj] at total
    exact total.symm

/-- A screen is moved out of a local one. -/
def movedOut : List (Event Nat Nat Nat) :=
  [.construct 0 1 ⟨1920, 1080, 7⟩, .moveConstruct 1 0 7, .destroy 0 7, .destroy 1 7]

theorem movedOut_released : Runs.Run Step (∅ : World Nat Nat Nat) movedOut ∅ ∧
    handles Event.releases movedOut ≠ handles Event.obtains movedOut := by
  have destroy {world : World Nat Nat Nat} {self : Nat}
      (found : world.find? self = some ⟨1920, 1080, none, none, 1, 7⟩) :
      Step world (.destroy self 7) (world.erase self) :=
    .destroy found
  have moveConstruct {world : World Nat Nat Nat} {self other : Nat} (free : world.find? self = none)
      (source : world.find? other = some ⟨1920, 1080, none, none, 1, 7⟩) :
      Step world (.moveConstruct self other 7) (world.set self ⟨1920, 1080, none, none, 1, 7⟩) :=
    .moveConstruct free source
  have run : Runs.Run Step (∅ : World Nat Nat Nat) movedOut _ :=
    .next (.construct rfl) (.next (moveConstruct rfl rfl) (.next (destroy rfl) (.next (destroy rfl)
      (.done _))))
  have emptied : Runs.Run Step (∅ : World Nat Nat Nat) movedOut ∅ := run
  refine ⟨emptied, ?_⟩
  intro balanced
  obtain ⟨unmoved, -⟩ := (released_iff emptied).2.mp balanced
  exact unmoved 1 0 7 (by simp [movedOut])

end Gymansie.ScreenHandles
