import Adaptite.LiveEdges
import Adaptite.Orderly

set_option autoImplicit false

namespace Adaptite

open Unwinding

variable {V : Type} {env : Enumeration} {w t u : World V} {e : NodeId}

/-- No frame from here up to the innermost boundary is being dropped. -/
inductive World.Unbroken (w : World V) : FrameId → Prop where
  | here {f : FrameId} {frame : OwnerFrame V} {handler : Payload V → Prog V}
      (hf : w.frames f = some frame) (hd : frame.dropped = false)
      (hh : frame.errorHandler = some handler) : Unbroken w f
  | outer {f q : FrameId} {frame : OwnerFrame V} (hf : w.frames f = some frame)
      (hd : frame.dropped = false) (hh : frame.errorHandler = none)
      (hp : frame.parent = some q) (h : Unbroken w q) : Unbroken w f

theorem World.Unbroken.dropped {f : FrameId} (h : w.Unbroken f) {frame : OwnerFrame V}
    (hf : w.frames f = some frame) : frame.dropped = false := by
  cases h with
  | here hf' hd _ =>
    cases hf.symm.trans hf'
    exact hd
  | outer hf' hd _ _ _ =>
    cases hf.symm.trans hf'
    exact hd

/-- The effect is disposed and the graph has forgotten it. -/
structure World.Gone (w : World V) (e : NodeId) : Prop where
  closed : w.Closed e
  node : e ∉ w.graph.nodeMeta
  observer : e ∉ w.graph.observers
  edges : ∀ d, d ∉ w.graph.edgesOf e
  watchers : ∀ o, o ∉ w.graph.observersOf e

theorem World.Gone.of_edges (hw : w.WellFormed) (hc : w.Closed e) (hn : e ∉ w.graph.nodeMeta)
    (he : ∀ d, d ∉ w.graph.edgesOf e) : w.Gone e :=
  ⟨hc, hn, fun ho => hn (hw.graph.registered e ho), he,
    fun o ho => hn (hw.graph.ends o e ((hw.graph.inverse o e).mpr ho))⟩

/-- An effect that is gone and does not run stays gone. -/
def World.Forgotten (e : NodeId) (a b : World V) : Prop :=
  a.Gone e → e ∉ a.graph.stack → b.Gone e ∧ e ∉ b.graph.stack

theorem closed_retired {a b : World V} (ha : a.WellFormed) (hs : AnyStep env a b) (hc : a.Closed e)
    (hn : e ∉ a.graph.nodeMeta) (hst : e ∉ a.graph.stack) :
    e ∉ b.graph.nodeMeta ∧ e ∉ b.graph.stack := by
  have orderly : a.Orderly b → e ∉ b.graph.nodeMeta ∧ e ∉ b.graph.stack := fun h =>
    ⟨fun hm => hn (h.closed e ((World.Grows.anyStep ha hs).closed hc) hm).2, h.stack ▸ hst⟩
  cases hs with
  | plain hs => exact orderly (.step ha hs)
  | create hs => exact orderly (.createStep ha hs)
  | compute hs => exact orderly (.computeStep hs)
  | run hs => exact orderly (.runStep hs)
  | caught r e p => exact ⟨hn, hst⟩
  | close hs =>
    cases hs with
    | closing i =>
      unfold World.closing
      rw [World.graph_unlatch]
      exact ⟨hn, hst⟩
    | unhook i _ => exact orderly (.unhook a i)
  | context hs =>
    cases hs with
    | enter o ho known =>
      obtain ⟨f1, _, f3, _⟩ := Graph.enterContext_frame env a.graph o
      rw [graph_enter, f1, f3, List.mem_cons, not_or]
      refine ⟨hn, ?_, hst⟩
      rintro rfl
      rcases known with hk | ⟨x, hx, hd⟩
      · rcases (ha.computed e hk).1 with hk | hk <;> exact hn (Graph.mem_of_nodeKind hk)
      · obtain ⟨y, hy, hd'⟩ := hc
        rw [hx] at hy
        cases hy
        rw [hd] at hd'
        cases hd'
    | leave v =>
      change e ∉ a.graph.exitContext.nodeMeta ∧ e ∉ a.graph.exitContext.stack
      unfold Graph.exitContext
      split
      · exact ⟨hn, hst⟩
      · rename_i o rest hs
        exact ⟨hn, fun hm => hst (hs ▸ List.mem_cons_of_mem o hm)⟩

theorem World.Forgotten.anyStep {a b : World V} (ha : a.WellFormed) (hb : b.WellFormed)
    (hs : AnyStep env a b) : World.Forgotten e a b := by
  intro hg hst
  obtain ⟨hnode, hstack⟩ := closed_retired ha hs hg.closed hg.node hst
  refine ⟨.of_edges hb ((World.Grows.anyStep ha hs).closed hg.closed) hnode fun d hd => ?_, hstack⟩
  rcases hs.shrinks ha with hshrinks | ⟨n, r, hr, rfl⟩
  · exact hg.edges d (hshrinks e d hd).1
  · rcases edges_observed hr hd with hd | ⟨ht, _⟩
    · exact hg.edges d hd
    · unfold World.tracker at ht
      split at ht
      · cases ht
      · exact hst (List.mem_of_head? ht)

section Teardown

variable {c : Calls V} {x : Run V Unit} {l l' : List (Run V Unit)} {quiet : Bool}

/-- What a frame has registered, in the order of its teardown. -/
def OwnerFrame.registered (c : Calls V) (frame : OwnerFrame V) : List (Run V Unit) :=
  frame.cleanups.reverse.map (fun p => c.exec p >>= fun _ => pure ()) ++
    frame.children.reverse.map c.dispose

/-- The world in which the registered actions of a frame are run, and what is left
of the thread afterwards. -/
def World.opened (w : World V) : World V :=
  { w with untracked := w.untracked + 1, owners := none :: w.owners, teardown := w.teardown + 1 }

theorem captureAll_ne_panic {β : Type} (f : β → Run V Unit) (l : List β) (w v : World V)
    (p : Payload V) : captureAll f l w ≠ .panic p v := by
  induction l generalizing w with
  | nil => exact nofun
  | cons b l ih =>
    intro h
    rcases Act.bind_eq_panic.mp h with h | ⟨r, u, _, h⟩
    · unfold Act.attempt at h
      split at h <;> cases h
    · rcases Act.bind_eq_panic.mp h with h | ⟨later, u', _, h⟩
      · exact ih u h
      · cases r <;> cases h

def World.emptied (w : World V) (f : FrameId) : World V :=
  (w.modifyFrame f fun frame => { frame with disposed := true }).modifyFrame f fun frame =>
    { frame with cleanups := [], children := [], sweptAt := 0 }

end Teardown

section Containment

variable {c : Calls V} {p : Payload V} {handler : Payload V → Prog V} {x : EffectInner V}

theorem World.Gone.unhook (hw : w.WellFormed) (hc : w.Closed e) : (w.unhook env e).Gone e := by
  have hs : CloseStep env w (w.unhook env e) := .unhook e hc
  refine .of_edges (.closeStep hs hw) ((World.Grows.closeStep hs).closed hc)
    (World.Orderly.notMem_unhook w e) fun d hd => ?_
  obtain ⟨_, _, _, he⟩ := ({ w with graph := ((w.graph.unregisterObserver e).dispose env e).1 } :
    World V).noteUnobserved_frame ((w.graph.unregisterObserver e).dispose env e).2
  unfold World.unhook World.disposeNode at hd
  dsimp only at hd
  rw [he] at hd
  exact ((Graph.mem_edgesOf_dispose (hw.graph.unregisterObserver e).inverse).mp hd).1 rfl

end Containment

section Teardowns

/-- The world in which the flush has taken the run of that effect from the queue. -/
def World.popped (w : World ℕ) : World ℕ :=
  { w with flush := (w.flush.popJob.map Prod.snd).getD {} }

/-- The world a run of the effect 2 unwinds into. -/
def World.unwound (w : World ℕ) : World ℕ :=
  match runScheduledInner (calls .insertion 20) .insertion 2 { w with runs := w.runs + 1 } with
  | .panic _ t => t
  | _ => w

end Teardowns

end Adaptite
