import Adaptite.Reads

set_option autoImplicit false

namespace Adaptite

open Unwinding

variable {V α : Type}

def World.currentOwner (w : World V) : Option FrameId := w.owners.head?.join

def withOwner (entry : Option FrameId) (body : Run V α) : Run V α :=
  Act.modify (fun w => { w with owners := entry :: w.owners }) >>= fun _ =>
    body.guarded (Act.modify fun w => { w with owners := w.owners.tail })

def inTeardown (body : Run V α) : Run V α :=
  Act.modify (fun w => { w with teardown := w.teardown + 1 }) >>= fun _ =>
    body.guarded (Act.modify fun w => { w with teardown := w.teardown - 1 })

def World.newFrame (w : World V) (handler : Option (Payload V → Prog V)) : World V :=
  { w with
    frames := Function.update w.frames w.nextFrame
      (some { parent := w.currentOwner, errorHandler := handler })
    nextFrame := w.nextFrame + 1 }

/-- The handler of the nearest enclosing boundary. A parent is older than its
children, so `nextFrame` levels reach the root. The search ends at a parent that is
being dropped: the reference to it is weak. -/
def errorHandlerFor (w : World V) : ℕ → FrameId → Option (Payload V → Prog V)
  | 0, _ => none
  | levels + 1, f =>
    match w.frames f with
    | none => none
    | some frame =>
      if frame.dropped then none
      else
        match frame.errorHandler, frame.parent with
        | some handler, _ => some handler
        | none, some parent => errorHandlerFor w levels parent
        | none, none => none

def World.isDisposedOwned (w : World V) : Owned → Bool
  | .effect e => ((w.effects e).map fun x => x.disposed).getD true
  | .scope f => ((w.frames f).map fun x => x.disposed).getD true
  | .subscription s => ((w.subscriptions s).map fun x => !x.active).getD true

/-- `OwnerFrame::adopt` by a live frame; disposed children are released once the
list has doubled since the last sweep. -/
def World.adopt (w : World V) (f : FrameId) (child : Owned) : World V :=
  w.modifyFrame f fun frame =>
    if frame.children.length < 8 || frame.children.length < frame.sweptAt * 2 then
      { frame with children := frame.children ++ [child] }
    else
      let kept := frame.children.filter fun c => !w.isDisposedOwned c
      { frame with children := kept ++ [child], sweptAt := kept.length }

def adoptIntoCurrent (c : Calls V) (child : Owned) : Run V Unit :=
  Act.get >>= fun w =>
    match w.currentOwner with
    | none => pure ()
    | some f =>
      match w.frames f with
      | none => Act.stop
      | some frame =>
        if frame.disposed then c.dispose child else Act.modify fun w => w.adopt f child

/-- Runs every member's action, whatever the others do; the first panic is the
one that is kept. -/
def captureAll {β : Type} (f : β → Run V Unit) : List β → Run V (Option (Payload V))
  | [] => pure none
  | b :: rest =>
    (f b).attempt >>= fun r => captureAll f rest >>= fun later =>
      match r with
      | .error p => pure (some p)
      | .ok _ => pure later

/-- The body of `OwnerFrame::reset` between taking the lists and reporting. -/
def tearDown (c : Calls V) (frame : OwnerFrame V) : Run V (Option (Payload V)) :=
  untrack (withOwner none (inTeardown
    (captureAll (fun p => c.exec p >>= fun _ => pure ()) frame.cleanups.reverse >>= fun first =>
      captureAll c.dispose frame.children.reverse >>= fun later => pure (first <|> later))))

/-- A panic of the teardown goes on unless the thread is unwinding already. -/
def resetFrame (c : Calls V) (f : FrameId) : Run V Unit :=
  Act.get >>= fun w =>
    match w.frames f with
    | none => Act.stop
    | some frame =>
      Act.modify (fun w => w.modifyFrame f fun frame =>
        { frame with cleanups := [], children := [], sweptAt := 0 }) >>= fun _ =>
      tearDown c frame >>= fun first =>
        match first with
        | none => pure ()
        | some p => Act.get >>= fun w => if w.panicking then pure () else Act.raise p

def disposeFrame (c : Calls V) (f : FrameId) : Run V Unit :=
  Act.get >>= fun w =>
    match w.frames f with
    | none => Act.stop
    | some frame =>
      if frame.disposed then pure ()
      else
        Act.modify (fun w => w.modifyFrame f fun frame => { frame with disposed := true }) >>=
          fun _ => resetFrame c f

def onCleanup (c : Calls V) (cleanup : Prog V) : Run V Unit :=
  Act.get >>= fun w =>
    match w.currentOwner with
    | none => if 0 < w.teardown then Act.raise .cleanupInTeardown else Act.raise .cleanupOutsideOwner
    | some f =>
      match w.frames f with
      | none => Act.stop
      | some frame =>
        if frame.disposed then c.exec cleanup >>= fun _ => pure ()
        else Act.modify fun w => w.modifyFrame f fun frame =>
          { frame with cleanups := frame.cleanups ++ [cleanup] }

/-- The drop of a frame whose closure unwound before a handle existed. -/
def dropFrame (c : Calls V) (f : FrameId) : Run V Unit :=
  Act.get >>= fun w =>
    match w.frames f with
    | none => Act.stop
    | some frame =>
      if frame.handled then pure ()
      else
        Act.modify (fun w => w.modifyFrame f fun frame => { frame with dropped := true }) >>= fun _ =>
        Act.modify (fun w => { w with panicking := true }) >>= fun _ =>
          (disposeFrame c f).guarded (Act.modify fun u => { u with panicking := w.panicking })

/-- `scope` and `scope_catch`. -/
def openScope (c : Calls V) (handler : Option (Payload V → Prog V)) (body : Prog V) :
    Run V (FrameId × V) :=
  Act.get >>= fun w =>
    Act.modify (fun w => w.newFrame handler) >>= fun _ =>
      (withOwner (some w.nextFrame) (c.exec body)).onUnwind (dropFrame c w.nextFrame) >>=
        fun v => adoptIntoCurrent c (.scope w.nextFrame) >>= fun _ => pure (w.nextFrame, v)

/-- `owner`: a handle to the current frame. -/
def owner : Run V (Option FrameId) :=
  Act.get >>= fun w =>
    match w.currentOwner with
    | none => pure none
    | some f =>
      Act.modify (fun w => w.modifyFrame f fun frame => { frame with handled := true }) >>=
        fun _ => pure (some f)

def runIn (c : Calls V) (f : FrameId) (body : Prog V) : Run V V :=
  Act.get >>= fun w =>
    match w.frames f with
    | none => Act.stop
    | some _ => withOwner (some f) (c.exec body)

end Adaptite
