import NexaCore.Misc.Run

/-!
# The window manager

`nexacore-display/src/wm.rs`, with the windows in creation order. The title and the pixels of a
window are left out.
-/

namespace NexaCore.Display

open Misc

/-- `Rect` (`geometry.rs:55-64`). -/
structure Rect where
  x : Int
  y : Int
  w : Nat
  h : Nat

/-- `Window` (`window.rs`), with the size of its surface. -/
structure Window where
  id : UInt32
  x : Int
  y : Int
  z : Int
  width : Nat
  height : Nat
  visible : Bool

/-- `WindowManager` (`wm.rs:67-79`). -/
structure WindowManager where
  windows : List Window := []
  focus : Option UInt32 := none
  nextId : UInt32 := 0
  nextZ : Int := 0
  screen : Rect

/-- `DisplayError::UnknownWindow`. -/
inductive DisplayError
  | unknownWindow (id : UInt32)

/-- A coordinate in `clamp_pos_to_screen` (`wm.rs:608-626`), with the cast to `i32`. -/
def clampPos (at' start : Int) (extent : Nat) : Int :=
  min (max at' start) ((min (start + extent - 1) (2 ^ 31 - 1)).bmod (2 ^ 32))

/-- The window that `max_by_key` finds: the last one of the largest `z`. -/
def topmost : List Window → Option Window
  | [] => none
  | w :: ws => some ((topmost ws).elim w fun best => if w.z ≤ best.z then best else w)

def changeFirst (id : UInt32) (change : Window → Window) : List Window → List Window
  | [] => []
  | w :: ws => if w.id = id then change w :: ws else w :: changeFirst id change ws

namespace WindowManager

variable (s : WindowManager)

/-- A call for a window that has to exist. -/
def onWindow {α : Type} (id : UInt32) (act : Window → α × WindowManager) :
    Except DisplayError α × WindowManager :=
  match s.windows.find? (·.id = id) with
  | none => (.error (.unknownWindow id), s)
  | some w => (.ok (act w).1, (act w).2)

/-- `create_window` (`wm.rs:141-164`). -/
def createWindow (x y : Int) (width height : Nat) : UInt32 × WindowManager :=
  let z := (s.nextZ + 1).bmod (2 ^ 32)
  let new : Window := ⟨s.nextId, clampPos x s.screen.x s.screen.w, clampPos y s.screen.y s.screen.h,
    z, width, height, true⟩
  (s.nextId, { s with
    windows := s.windows ++ [new], focus := some s.nextId, nextId := s.nextId + 1, nextZ := z })

/-- `destroy` (`wm.rs:195-209`). -/
def destroy (id : UInt32) : Except DisplayError Unit × WindowManager :=
  s.onWindow id fun _ =>
    let windows := s.windows.eraseP (·.id = id)
    let focus := if s.focus = some id then (topmost windows).map (·.id) else s.focus
    ((), { s with windows, focus })

/-- `move_to` (`wm.rs:223-235`). -/
def moveTo (id : UInt32) (x y : Int) : Except DisplayError Rect × WindowManager :=
  s.onWindow id fun w =>
    let moved (w : Window) : Window := { w with
      x := clampPos x s.screen.x s.screen.w, y := clampPos y s.screen.y s.screen.h }
    (⟨w.x, w.y, w.width, w.height⟩, { s with windows := changeFirst id moved s.windows })

/-- `raise` (`wm.rs:269-284`). -/
def raise (id : UInt32) : Except DisplayError Unit × WindowManager :=
  s.onWindow id fun _ =>
    let nextZ := (s.nextZ + 1).bmod (2 ^ 32)
    ((), { s with windows := changeFirst id ({ · with z := nextZ }) s.windows, nextZ })

/-- `set_focus` (`wm.rs:299-313`). -/
def setFocus (id : UInt32) : Except DisplayError (Option UInt32 × UInt32) × WindowManager :=
  s.onWindow id fun _ => ((s.focus, id), { s with focus := some id })

/-- The visible windows in ascending `z`; the source leaves the order of equal ones open. -/
def byZ : List (Int × UInt32) :=
  ((s.windows.filter (·.visible)).map fun w => (w.z, w.id)).mergeSort fun a b => a.1 ≤ b.1

/-- `cycle_focus` (`wm.rs:361-419`). -/
def cycleFocus : Option UInt32 × WindowManager :=
  let bottom := s.byZ.head?.map (·.2)
  let focus :=
    if s.byZ.length ≤ 1 then bottom
    else s.focus.elim bottom fun focused =>
      (s.byZ.findIdx? (·.2 = focused)).elim bottom fun i =>
        s.byZ[(i + 1) % s.byZ.length]?.map (·.2)
  (focus, { s with focus })

/-- The calls, and a change of `visible` through `window_mut` (`wm.rs:586-588`). -/
inductive Call where
  | createWindow (x y : Int) (width height : Nat)
  | destroy (id : UInt32)
  | moveTo (id : UInt32) (x y : Int)
  | raise (id : UInt32)
  | setFocus (id : UInt32)
  | cycleFocus
  | setVisible (id : UInt32) (visible : Bool)

def next : Call → WindowManager
  | .createWindow x y width height => (s.createWindow x y width height).2
  | .destroy id => (s.destroy id).2
  | .moveTo id x y => (s.moveTo id x y).2
  | .raise id => (s.raise id).2
  | .setFocus id => (s.setFocus id).2
  | .cycleFocus => s.cycleFocus.2
  | .setVisible id visible =>
    { s with windows := changeFirst id ({ · with visible }) s.windows }

def system : Lts WindowManager Call := fun s call s' => s' = s.next call

end WindowManager

end NexaCore.Display
