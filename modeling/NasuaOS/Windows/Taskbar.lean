import Mathlib.Algebra.Ring.Nat
import Mathlib.Data.List.Basic

/-!
# The taskbar

`src/resources/drivers/gpu/functions/64bit_driver/window.cpp:16–36,764–905`. The buttons of the
taskbar are laid out twice, by the code that draws them and by the code that looks for the one under
the mouse. A button is the block that is filled for it, whether or not it reaches beyond the screen.
-/

namespace NasuaOS.Windows

/-- `window_struct`, as far as the taskbar looks at it; of the name only whether there is one. -/
structure Window where
  named : Bool
  visible : Bool
  minimized : Bool

/-- The screen, and the height of the taskbar at its bottom. -/
structure Screen where
  width : Nat
  height : Nat
  barHeight : Nat
  margin_lt : 8 < barHeight
  bar_le : barHeight ≤ height

/-- The windows at their addresses, and those that are registered. -/
structure Desktop where
  windows : Nat → Window
  list : List Nat

/-- `MAX_TASKBAR_WINDOWS`. -/
def maxTaskbarWindows : Nat := 5

/-- The windows that have a button, of the first ones in the list. -/
def Desktop.taskbarWindows (s : Desktop) : List Nat :=
  (s.list.take maxTaskbarWindows).filter fun w =>
    (s.windows w).named && ((s.windows w).visible || (s.windows w).minimized)

namespace Screen

variable (screen : Screen)

/-- A place is in the button that starts at `left`. -/
def InButton (left : Nat) (mouseX mouseY : Int) : Prop :=
  left ≤ mouseX ∧ mouseX < left + 120 ∧
    ((screen.height - screen.barHeight + 4 : Nat) : Int) ≤ mouseY ∧
    mouseY < (screen.height - screen.barHeight + 4 + (screen.barHeight - 8) : Nat)
  deriving Decidable

/-- `fb->width - 170`, in 64 bits. -/
def rightLimit : Nat := (screen.width + 2 ^ 64 - 170) % 2 ^ 64

/-- The loop of `get_taskbar_window_at`. -/
def findButton (mouseX mouseY : Int) : List Nat → Nat → Option Nat
  | [], _ => none
  | w :: rest, left =>
    if screen.InButton left mouseX mouseY then some w
    else findButton mouseX mouseY rest (left + 126)

/-- The loop of `draw_taskbar_entries`: the buttons that are drawn, with their left edges. -/
def drawButtons : List Nat → Nat → List (Nat × Nat)
  | [], _ => []
  | w :: rest, left =>
    if screen.rightLimit < left + 120 then [] else (w, left) :: drawButtons rest (left + 126)

end Screen

namespace Desktop

variable (screen : Screen) (s : Desktop)

/-- `get_taskbar_window_at`. -/
def taskbarWindowAt (mouseX mouseY : Int) : Option Nat :=
  if ((screen.height - screen.barHeight : Nat) : Int) ≤ mouseY ∧ mouseY < screen.height then
    screen.findButton mouseX mouseY s.taskbarWindows 124
  else none

/-- `draw_taskbar_entries`. -/
def drawTaskbarEntries : List (Nat × Nat) := screen.drawButtons s.taskbarWindows 124

end Desktop

variable {screen : Screen} {s : Desktop} {mouseX mouseY : Int} {windows : List Nat} {left w : Nat}

private theorem Screen.findButton_eq_some_iff : screen.findButton mouseX mouseY windows left = some w ↔
    ∃ j, windows[j]? = some w ∧ screen.InButton (left + 126 * j) mouseX mouseY := by
  induction windows generalizing left with
  | nil => simp [findButton]
  | cons v rest ih =>
    rw [findButton]
    split
    · next hin =>
      constructor
      · rintro ⟨⟩
        exact ⟨0, rfl, hin⟩
      · rintro ⟨j, hj, hin'⟩
        -- the buttons are apart
        obtain rfl : j = 0 := by
          unfold InButton at hin hin'
          omega
        exact hj
    · next hout =>
      rw [ih]
      constructor
      · rintro ⟨j, hj, hin⟩
        exact ⟨j + 1, hj, by rwa [Nat.mul_succ, Nat.add_comm _ 126, ← Nat.add_assoc]⟩
      · rintro ⟨j, hj, hin⟩
        cases j with
        | zero => exact absurd hin hout
        | succ j => exact ⟨j, hj, by rwa [Nat.mul_succ, Nat.add_comm _ 126, ← Nat.add_assoc] at hin⟩

private theorem Screen.mem_drawButtons_iff {x : Nat} : (w, x) ∈ screen.drawButtons windows left ↔
    ∃ j, windows[j]? = some w ∧ x = left + 126 * j ∧ x + 120 ≤ screen.rightLimit := by
  induction windows generalizing left with
  | nil => simp [drawButtons]
  | cons v rest ih =>
    rw [drawButtons]
    split
    · next hfull =>
      simp only [List.not_mem_nil, false_iff]
      rintro ⟨j, -, rfl, hroom⟩
      omega
    · next hroom =>
      rw [List.mem_cons, ih, Prod.mk.injEq]
      constructor
      · rintro (⟨rfl, rfl⟩ | ⟨j, hj, hx, hlast⟩)
        · exact ⟨0, rfl, rfl, by omega⟩
        · exact ⟨j + 1, hj, by omega, hlast⟩
      · rintro ⟨j, hj, hx, hlast⟩
        cases j with
        | zero => exact .inl ⟨(Option.some.inj hj).symm, hx⟩
        | succ j => exact .inr ⟨j, hj, by omega, hlast⟩

private theorem Desktop.taskbarWindowAt_eq_some_iff : s.taskbarWindowAt screen mouseX mouseY = some w ↔
    ∃ j, s.taskbarWindows[j]? = some w ∧ screen.InButton (124 + 126 * j) mouseX mouseY := by
  rw [taskbarWindowAt]
  split
  · exact Screen.findButton_eq_some_iff
  · next hout =>
    simp only [reduceCtorEq, false_iff]
    rintro ⟨j, -, hin⟩
    have := screen.margin_lt
    have := screen.bar_le
    unfold Screen.InButton at hin
    omega

/-- The search and the drawing agree about every place exactly if the last button ends before the
right limit. -/
theorem taskbar_agrees_iff (screen : Screen) (s : Desktop) :
    (∀ mouseX mouseY w, s.taskbarWindowAt screen mouseX mouseY = some w ↔
      ∃ left, (w, left) ∈ s.drawTaskbarEntries screen ∧ screen.InButton left mouseX mouseY) ↔
      s.taskbarWindows = [] ∨ 118 + 126 * s.taskbarWindows.length ≤ screen.rightLimit := by
  simp only [Desktop.taskbarWindowAt_eq_some_iff, Desktop.drawTaskbarEntries,
    Screen.mem_drawButtons_iff]
  constructor
  · intro hagree
    refine or_iff_not_imp_left.mpr fun hne => ?_
    have hpos := List.length_pos_iff.mpr hne
    -- the upper left corner of the last button
    obtain ⟨w, hw⟩ : ∃ w, s.taskbarWindows[s.taskbarWindows.length - 1]? = some w :=
      ⟨_, List.getElem?_eq_getElem (by omega)⟩
    have hin : screen.InButton (124 + 126 * (s.taskbarWindows.length - 1))
        (124 + 126 * (s.taskbarWindows.length - 1) : Nat)
        (screen.height - screen.barHeight + 4 : Nat) := by
      have := screen.margin_lt
      unfold Screen.InButton
      omega
    obtain ⟨left, ⟨j, -, rfl, hroom⟩, hin'⟩ := (hagree _ _ w).mp ⟨_, hw, hin⟩
    unfold Screen.InButton at hin'
    omega
  · intro hroom mouseX mouseY w
    constructor
    · rintro ⟨j, hj, hin⟩
      have hlt := (List.getElem?_eq_some_iff.mp hj).1
      rcases hroom with hnone | hroom
      · rw [hnone] at hlt
        cases hlt
      · exact ⟨_, ⟨j, hj, rfl, by omega⟩, hin⟩
    · rintro ⟨left, ⟨j, hj, rfl, -⟩, hin⟩
      exact ⟨j, hj, hin⟩

/-- On a screen of 640 by 480 the button of the third window is found and not drawn. -/
theorem third_button_not_drawn :
    let screen : Screen := ⟨640, 480, 40, by decide, by decide⟩
    let s : Desktop := ⟨fun _ => ⟨true, true, false⟩, [0, 1, 2]⟩
    s.taskbarWindowAt screen 376 450 = some 2 ∧ s.drawTaskbarEntries screen =
      [(0, 124), (1, 250)] := by
  decide

end NasuaOS.Windows
