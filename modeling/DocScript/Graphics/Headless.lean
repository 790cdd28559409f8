import DocScript.Machine.Capability

/-!
# Headless graphics

A backend without a window: it records what is drawn, and its loop replays a script of events.
-/

namespace DocScript

/-- An event that a script replays. -/
structure ScriptedEvent where
  name : String
  arguments : List Value
  deriving DecidableEq, Inhabited, Repr

/-- A window that was asked for. -/
structure Window where
  width : Int64
  height : Int64
  title : String
  deriving DecidableEq, Inhabited, Repr

/-- The window, the rectangles in the order in which they were drawn, the events that are still to
come and the number of those that were replayed. -/
structure HeadlessGraphics where
  window : Option Window := none
  draws : Array Rect := #[]
  script : List ScriptedEvent := []
  frames : Nat := 0
  deriving DecidableEq, Inhabited, Repr

namespace HeadlessGraphics

/-- The course of the loop over a script: each event is dispatched once, and the first fault ends
the loop. -/
def replay (graphics : HeadlessGraphics) : List ScriptedEvent → EventLoop HeadlessGraphics
  | [] => .finish (.ok ()) { graphics with script := [] }
  | event :: rest =>
      .dispatch event.name event.arguments fun
        | .ok drawn =>
            replay { graphics with
              draws := graphics.draws ++ drawn
              frames := graphics.frames + 1 } rest
        | .error fault => .finish (.error fault) { graphics with script := rest }

/-- The backend: a loop replays the script, and the handles are fixed. -/
def interface : GraphicsInterface HeadlessGraphics where
  openWindow width height title := modify ({ · with window := some ⟨width, height, title⟩ })
  draw rect := modify fun graphics => { graphics with draws := graphics.draws.push rect }
  loop graphics := graphics.replay graphics.script
  layer _ := 0x1000
  device _ := 0x2000

end HeadlessGraphics

end DocScript
