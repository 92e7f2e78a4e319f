import Adaptite.Crossing

set_option autoImplicit false

namespace Adaptite

open Unwinding

variable {V α : Type}

/-- As far as the cells go, `b` is `a`. -/
abbrev Restores (a b : World V) : Prop := b.cells = a.cells

theorem Restores.refl (w : World V) : Restores w w := rfl

theorem Restores.trans (a b c : World V) (h : Restores a b) (h' : Restores b c) : Restores a c :=
  Eq.trans h' h

namespace Restores

variable {env : Enumeration} {c : Calls V}

section Guards

variable {body : Run V α} {w : World V}

/-- A guard takes back, by `q`, what it opened with, by `p`, whatever runs under it. -/
theorem guard {g k : World V → World V} {p q : Cells → Cells}
    (hg : (g w).cells = p w.cells) (hk : ∀ t, (k t).cells = q t.cells)
    (hc : q (p w.cells) = w.cells) (h : Act.Moves Restores body) :
    Act.MovesAt Restores (Act.modify g >>= fun _ => body.guarded (Act.modify k)) w :=
  .bracket_view hg hk hc (h _)

theorem untrack (h : Act.Moves Restores body) : Act.Moves Restores (untrack body) := fun _ =>
  guard (p := fun x => { x with untracked := x.untracked + 1 })
    (q := fun x => { x with untracked := x.untracked - 1 }) rfl (fun _ => rfl) rfl h

theorem withOwner (entry : Option FrameId) (h : Act.Moves Restores body) :
    Act.Moves Restores (withOwner entry body) := fun _ =>
  guard (p := fun x => { x with owners := entry :: x.owners })
    (q := fun x => { x with owners := x.owners.tail }) rfl (fun _ => rfl) rfl h

theorem inTeardown (h : Act.Moves Restores body) : Act.Moves Restores (inTeardown body) := fun _ =>
  guard (p := fun x => { x with teardown := x.teardown + 1 })
    (q := fun x => { x with teardown := x.teardown - 1 }) rfl (fun _ => rfl) rfl h

theorem externalFlush (h : Act.Moves Restores body) :
    Act.Moves Restores (externalFlush body) := by
  intro w
  change Act.MovesAt Restores (Act.modify (fun w : World V =>
    { w with flush := w.flush.beginFlush.1 }) >>= fun _ => body.guarded endFlush) w
  refine guard (p := fun x => { x with flushDepth := x.flushDepth + 1 })
    (q := fun x => { x with flushDepth := x.flushDepth - 1 }) ?_ (fun _ => rfl) rfl h
  unfold World.cells
  dsimp only
  rw [flushDepth_beginFlush]

theorem runInContext (o : NodeId) (h : Act.Moves Restores body) :
    Act.Moves Restores (runInContext env o body) := by
  intro w
  refine .get_bind ?_
  split
  · exact .raise (refl w) _
  · refine guard (p := fun x => x.entered o) (q := fun x => x.left w.untracked) (enter_still w o).2
      (fun t => (leave_still t w.untracked).2) (w.cells.left_entered o) ?_
    refine h.bind trans fun a t => ?_
    exact .modify_bind trans rfl (.pure (refl _) a)

theorem drained {body : Run V Unit} (h : Act.Moves Restores body) : Act.Moves Restores
    (Act.modify (fun w => { w with flush := w.flush.openDrain.enterDrain }) >>= fun _ =>
      body.guarded (Act.modify fun w => { w with flush := w.flush.leaveDrain.rearm })) := by
  intro w
  refine guard (p := fun x => { x with flushDepth := x.flushDepth + 1 })
    (q := fun x => { x with flushDepth := x.flushDepth - 1 }) rfl (fun t => ?_) rfl h
  unfold World.cells
  dsimp only
  rw [flushDepth_rearm]
  rfl

end Guards

theorem carries (env : Enumeration) : Carries env (Restores : World V → World V → Prop) where
  refl := refl
  trans := trans
  still h := h.cells
  tend _ _ _ _ := rfl
  untrack := untrack
  withOwner entry _ := withOwner entry
  inTeardown := inTeardown
  context o _ := runInContext o
  externalFlush := externalFlush
  drained := drained

section Owners

theorem adoptIntoCurrent (m : Meets Restores c) (child : Owned) :
    Act.Moves Restores (adoptIntoCurrent c child) := by
  intro w
  refine .get_bind ?_
  split
  · exact .pure (refl w) ()
  · split
    · exact .stop
    · split
      · exact m.dispose child w
      · exact .modify rfl

theorem resetFrame (m : Meets Restores c) (f : FrameId) :
    Act.Moves Restores (resetFrame c f) := by
  intro w
  refine .get_bind ?_
  split
  · exact .stop
  · rename_i frame _
    have htear := (carries .insertion).tearDown m frame
    refine .modify_bind trans rfl ((htear _).bind trans fun first t _ => ?_)
    split
    · exact .pure (refl t) ()
    · refine .get_bind ?_
      split
      · exact .pure (refl t) ()
      · exact .raise (refl t) _

theorem disposeFrame (m : Meets Restores c) (f : FrameId) :
    Act.Moves Restores (disposeFrame c f) := by
  intro w
  refine .get_bind ?_
  split
  · exact .stop
  · split
    · exact .pure (refl w) ()
    · exact .modify_bind trans rfl (resetFrame m f _)

theorem dropFrame (m : Meets Restores c) (f : FrameId) :
    Act.Moves Restores (dropFrame c f) := by
  intro w
  refine .get_bind ?_
  split
  · exact .stop
  · split
    · exact .pure (refl w) ()
    · refine .modify_bind trans rfl ?_
      exact guard (p := fun x => { x with panicking := true })
        (q := fun x => { x with panicking := w.panicking }) rfl (fun _ => rfl) rfl
        (disposeFrame m f)

theorem openScope (m : Meets Restores c) (handler : Option (Payload V → Prog V))
    (body : Prog V) : Act.Moves Restores (openScope c handler body) := by
  intro w
  refine .get_bind (.modify_bind trans rfl ?_)
  refine .bind trans (.onUnwind trans (withOwner _ (m.exec body) _) fun t _ =>
    dropFrame m _ t) fun v t _ => ?_
  exact (adoptIntoCurrent m _ t).bind trans fun _ u _ => .pure (refl u) _

theorem newEffect (m : Meets Restores c) (body : Body V) (external : Bool) :
    Act.Moves Restores (newEffect c body external) := by
  intro w
  refine .get_bind (.modify_bind trans rfl ?_)
  refine (adoptIntoCurrent m _ _).bind trans fun _ t _ => ?_
  exact .modify_bind trans (still_scheduleEffect t _).cells (.pure (refl _) _)

theorem disposeEffect (m : Meets Restores c) (e : NodeId) :
    Act.Moves Restores (disposeEffect c env e) := by
  intro w
  refine .get_bind ?_
  split
  · exact .stop
  · split
    · exact .pure (refl w) ()
    · have hclosing : Restores w (w.closing e) := (still_unlatch _ e).cells
      refine .modify_bind trans hclosing (.guarded trans (disposeFrame m _ _) fun t _ => ?_)
      exact .modify (still_unhook t e).cells

theorem owning (m : Meets Restores c) : Owning env Restores c where
  openScope := openScope m
  newEffect := newEffect m
  subscribed s := adoptIntoCurrent m (.subscription s)
  reset := resetFrame m
  disposeFrame := disposeFrame m
  disposeEffect := disposeEffect m

end Owners

theorem calls (env : Enumeration) (depth : ℕ) : Meets Restores (calls env depth : Calls V) :=
  ((carries env).calls (Q := fun _ => True) trivial (fun _ m _ => ⟨owning m, trivial⟩) depth).1

end Restores

end Adaptite
