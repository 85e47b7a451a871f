/-!
# The popup's surface

`Surface` of `src/app/surface.rs`. An instant is a reading of the monotone clock, in nanoseconds.
What a method asks of the toolkit is listed as tasks; size, place and padding of the layer surface
are left out.
-/

namespace CosmicPass

abbrev WindowId := Nat

/-- What handling a message asks of the toolkit, and the line that reports how long opening took. -/
inductive AppTask where
  | createSurface (id : WindowId)
  | destroySurface (id : WindowId)
  | focusSearch
  /-- Scrolls the results to this row, the last one being the other. -/
  | snapTo (selected last : Nat)
  | openUrl (url : String)
  | logOpenLatency (elapsed : Nat)
deriving DecidableEq

structure Surface where
  id : WindowId
  visible : Bool := false
  lastHide : Option Nat := none
  /-- When the show request that is still waiting for its surface arrived. -/
  pendingShow : Option Nat := none
deriving DecidableEq

/-- 100 ms. A toggle arriving this soon after a hide is ignored, so a focus loss caused by the
shortcut itself does not immediately re-open the window. -/
def toggleDebounce : Nat := 100000000

namespace Surface

variable (s : Surface) (instant : Nat)

def recentlyHidden : Bool := s.lastHide.any fun hidden => instant - hidden < toggleDebounce

def markShowRequested (requested : Nat) : Surface := { s with pendingShow := some requested }

/-- Time from the show request to now, once, if a measurement is pending. -/
def takeOpenLatency : Option Nat × Surface :=
  (s.pendingShow.map (instant - ·), { s with pendingShow := none })

/-- Marks the surface visible; `false` when it already was. -/
def beginShow : Bool × Surface :=
  if s.visible then (false, { s with pendingShow := none }) else (true, { s with visible := true })

def «show» : Surface × List AppTask :=
  match s.beginShow with
  | (false, s) => (s, [.focusSearch])
  | (true, s) => (s, [.createSurface s.id, .focusSearch])

def hide : Surface × List AppTask :=
  if s.visible then
    ({ s with visible := false, lastHide := some instant, pendingShow := none },
      [.destroySurface s.id])
  else (s, [])

end Surface

end CosmicPass
