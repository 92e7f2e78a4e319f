import Adaptite.EventHost

set_option autoImplicit false

namespace Adaptite

namespace EventFrame

variable {V : Type}

def isDraining (d : ℕ) : EventFrame V → Bool
  | draining i _ => i = d
  | _ => false

/-- The feeder comes at most once in the rest of a snapshot. -/
def FeedsOnce (d : ℕ) : EventFrame V → Prop
  | emitting _ rest => rest.count (.feeder d) ≤ 1
  | _ => True

/-- The frame has nothing to do with the subscription. -/
structure Stranger (d : ℕ) (f : EventFrame V) : Prop where
  pending : f.pending d = none
  inHand : f.inHand d = []
  draining : f.isDraining d = false
  once : f.FeedsOnce d

end EventFrame

namespace EventHost

variable {V : Type}

/-- In the order in which the subscription gets them: what it has got, and what it is still to
get. -/
def order (s : EventHost V) (d : ℕ) (x : DrainCell V) : List (Emission V) :=
  x.received ++ s.pending d

/-- Nothing in the state mentions a subscription that has not been made. -/
structure Unmade (s : EventHost V) (d : ℕ) : Prop where
  subscribers : .feeder d ∉ s.subscribers
  frames : ∀ f ∈ s.frames, f.Stranger d

/-- What has been emitted since the subscription was made is on its way to the handler. -/
structure Fed (s : EventHost V) (d : ℕ) (x : DrainCell V) : Prop where
  conserved : x.received = x.delivered ++ s.inHand d ++ x.queue
  window : s.frames.countP (EventFrame.isDraining d) = if x.running then 1 else 0
  arrives : (s.order d x).Perm x.begun
  begun : x.begun.Pairwise fun a b => a.1 < b.1
  recent : ∀ a ∈ x.begun, a.1 < s.nextEmission
  overtaken : x.overtaken = false ↔ (s.order d x).Pairwise fun a b => a.1 < b.1
  registered : s.subscribers.count (.feeder d) = if x.active then 1 else 0
  once : ∀ f ∈ s.frames, f.FeedsOnce d
  opened : x.running = true → x.observing = true
  ready : x.active = true → x.observing = true ∨ x.scheduled = true ∧ x.dirty = true
  owed : x.active = true → x.queue ≠ [] → x.scheduled = true ∧ x.dirty = true ∨
    x.running = true ∧ x.rerunAfterCurrent = true ∧ x.dirty = true ∨
      s.frames.any EventFrame.isEmitting = true

structure Orderly (s : EventHost V) : Prop where
  made : ∀ d, s.drains d ≠ none → d < s.nextSubscriber
  unmade : ∀ d, s.drains d = none → s.Unmade d
  fed : ∀ d x, s.drains d = some x → s.Fed d x

variable {s t : EventHost V} {d : ℕ} {x y : DrainCell V} {f : EventFrame V}
  {frames : List (EventFrame V)} {emission : Emission V}

section Fed

theorem pending_of_frames (hs : s.frames = f :: frames) :
    s.pending d = (f.pending d).toList ++ frames.filterMap (EventFrame.pending d) := by
  unfold pending
  rw [hs, List.filterMap_cons]
  cases f.pending d <;> rfl

theorem inHand_of_frames (hs : s.frames = f :: frames) :
    s.inHand d = f.inHand d ++ frames.flatMap (EventFrame.inHand d) := by
  unfold inHand
  rw [hs, List.flatMap_cons]

/-- The cell is left alone, and the frames and subscribers as far as they concern it. -/
theorem Fed.keep (h : s.Fed d x) (hp : t.pending d = s.pending d) (hi : t.inHand d = s.inHand d)
    (hw : t.frames.countP (EventFrame.isDraining d) = s.frames.countP (EventFrame.isDraining d))
    (hr : t.subscribers.count (.feeder d) = s.subscribers.count (.feeder d))
    (ho : ∀ f ∈ t.frames, f.FeedsOnce d) (hn : s.nextEmission ≤ t.nextEmission)
    (he : s.frames.any EventFrame.isEmitting = true → t.frames.any EventFrame.isEmitting = true) :
    t.Fed d x where
  conserved := by rw [hi]; exact h.conserved
  window := by rw [hw]; exact h.window
  arrives := by unfold order; rw [hp]; exact h.arrives
  begun := h.begun
  recent a ha := Nat.lt_of_lt_of_le (h.recent a ha) hn
  overtaken := by unfold order; rw [hp]; exact h.overtaken
  registered := by rw [hr]; exact h.registered
  once := ho
  opened := h.opened
  ready := h.ready
  owed ha hq := (h.owed ha hq).imp id (Or.imp id he)

/-- A frame that has nothing to do with the subscription is entered. -/
theorem Fed.push (h : s.Fed d x) (hf : f.Stranger d) (ht : t.frames = f :: s.frames)
    (hr : t.subscribers = s.subscribers) (hn : t.nextEmission = s.nextEmission) : t.Fed d x := by
  refine h.keep ?_ ?_ ?_ (by rw [hr]) ?_ (Nat.le_of_eq hn.symm) ?_
  · rw [pending_of_frames ht, hf.pending]
    rfl
  · rw [inHand_of_frames ht, hf.inHand]
    rfl
  · rw [ht, List.countP_cons, hf.draining]
    rfl
  · rw [ht]
    exact List.forall_mem_cons.mpr ⟨hf.once, h.once⟩
  · intro hany
    rw [ht, List.any_cons, hany, Bool.or_true]

/-- A frame that has nothing to do with the subscription is left. -/
theorem Fed.pop (h : s.Fed d x) (hf : f.Stranger d) (hs : s.frames = f :: t.frames)
    (he : f.isEmitting = false) (hr : t.subscribers = s.subscribers)
    (hn : t.nextEmission = s.nextEmission) : t.Fed d x := by
  have honce := h.once
  rw [hs] at honce
  refine h.keep ?_ ?_ ?_ (by rw [hr]) (List.forall_mem_cons.mp honce).2 (Nat.le_of_eq hn.symm) ?_
  · rw [pending_of_frames hs, hf.pending]
    rfl
  · rw [inHand_of_frames hs, hf.inHand]
    rfl
  · rw [hs, List.countP_cons, hf.draining]
    rfl
  · intro hany
    rwa [hs, List.any_cons, he, Bool.false_or] at hany

/-- The new emission is the latest, and comes before whatever is still to be fed. -/
theorem Fed.emit (h : s.Fed d x) (value : V) :
    (s.emit value).Fed d (x.begin (s.nextEmission, value) !(s.pending d).isEmpty) := by
  have hcount := h.registered
  have hframes : (s.emit value).frames =
    .emitting (s.nextEmission, value) s.subscribers :: s.frames := rfl
  have honce : ∀ f ∈ (s.emit value).frames, f.FeedsOnce d := by
    refine List.forall_mem_cons.mpr ⟨?_, h.once⟩
    change s.subscribers.count (.feeder d) ≤ 1
    rw [hcount]
    split <;> omega
  have hany : (s.emit value).frames.any EventFrame.isEmitting = true := rfl
  cases hactive : x.active with
  | false =>
    have hout : .feeder d ∉ s.subscribers := by
      rw [← List.count_eq_zero, hcount, hactive]
      rfl
    have hbegin : x.begin (s.nextEmission, value) (!(s.pending d).isEmpty) = x := by
      unfold DrainCell.begin
      rw [hactive]
      rfl
    rw [hbegin]
    refine h.keep ?_ ?_ ?_ rfl honce (Nat.le_succ _) fun _ => hany
    · rw [pending_of_frames hframes]
      simp [EventFrame.pending, hout, pending]
    · rw [inHand_of_frames hframes]
      rfl
    · rw [hframes, List.countP_cons]
      rfl
  | true =>
    have hin : .feeder d ∈ s.subscribers := by
      rw [← List.count_pos_iff, hcount, hactive]
      exact Nat.one_pos
    have hpending : (s.emit value).pending d = (s.nextEmission, value) :: s.pending d := by
      rw [pending_of_frames hframes]
      simp [EventFrame.pending, hin, pending]
    have hbegin : x.begin (s.nextEmission, value) (!(s.pending d).isEmpty) =
        { x with
          begun := x.begun ++ [(s.nextEmission, value)]
          overtaken := x.overtaken || !(s.pending d).isEmpty } := by
      unfold DrainCell.begin
      rw [hactive]
      rfl
    rw [hbegin]
    have hperm : (x.received ++ (s.nextEmission, value) :: s.pending d).Perm
        (x.begun ++ [(s.nextEmission, value)]) :=
      (List.perm_middle.trans (h.arrives.cons _)).trans (List.perm_append_singleton _ _).symm
    have hlast : ∀ a ∈ s.order d x, a.1 < s.nextEmission :=
      fun a ha => h.recent a (h.arrives.subset ha)
    refine ⟨?_, ?_, ?_, ?_, ?_, ?_, ?_, honce, h.opened, h.ready, fun _ _ => .inr (.inr hany)⟩
    · rw [inHand_of_frames hframes]
      exact h.conserved
    · rw [hframes, List.countP_cons]
      exact h.window
    · unfold order
      rw [hpending]
      exact hperm
    · refine List.pairwise_append.mpr ⟨h.begun, List.pairwise_singleton _ _, fun a ha b hb => ?_⟩
      rw [List.mem_singleton.mp hb]
      exact h.recent a ha
    · intro a ha
      change a.1 < s.nextEmission + 1
      rcases List.mem_append.mp ha with ha | ha
      · exact Nat.lt_succ_of_lt (h.recent a ha)
      · rw [List.mem_singleton.mp ha]
        exact Nat.lt_succ_self _
    · unfold order
      rw [hpending]
      dsimp only
      rw [Bool.or_eq_false_iff, h.overtaken]
      unfold order at hlast ⊢
      cases hp : s.pending d with
      | nil =>
        rw [hp] at hlast
        simp only [List.append_nil] at hlast ⊢
        simp only [List.isEmpty_nil, Bool.not_true, and_true, List.pairwise_append,
          List.pairwise_singleton, List.mem_singleton, forall_eq, true_and]
        exact ⟨fun hs => ⟨hs, hlast⟩, fun hs => hs.1⟩
      | cons a l =>
        -- the emission before it comes after it
        simp only [List.isEmpty_cons, Bool.not_false, Bool.true_eq_false, and_false, false_iff]
        intro hpair
        have hlt := (List.pairwise_cons.mp (List.pairwise_append.mp hpair).2.1).1 a
          List.mem_cons_self
        have hgt := hlast a (by rw [hp]; simp)
        omega
    · exact hcount

/-- The emission goes on to its next subscriber, which is another one. -/
theorem Fed.advance (h : s.Fed d x) {i : EventSubscriber} {rest : List EventSubscriber}
    (hs : s.frames = .emitting emission (i :: rest) :: frames) (hi : i ≠ .feeder d)
    (ht : t.frames = .emitting emission rest :: frames) (hr : t.subscribers = s.subscribers)
    (hn : t.nextEmission = s.nextEmission) : t.Fed d x := by
  have honce := h.once
  rw [hs] at honce
  obtain ⟨htop, hbelow⟩ := List.forall_mem_cons.mp honce
  refine h.keep ?_ ?_ ?_ (by rw [hr]) ?_ (Nat.le_of_eq hn.symm) ?_
  · rw [pending_of_frames ht, pending_of_frames hs]
    simp [EventFrame.pending, Ne.symm hi]
  · rw [inHand_of_frames ht, inHand_of_frames hs]
    rfl
  · rw [ht, hs, List.countP_cons, List.countP_cons]
    rfl
  · rw [ht]
    refine List.forall_mem_cons.mpr ⟨?_, hbelow⟩
    change (i :: rest).count (.feeder d) ≤ 1 at htop
    exact Nat.le_trans List.count_le_count_cons htop
  · intro _
    rw [ht]
    rfl

theorem Fed.feed (h : s.Fed d x) {rest : List EventSubscriber}
    (hs : s.frames = .emitting emission (.feeder d :: rest) :: frames)
    (ht : t.frames = .emitting emission rest :: frames) (hr : t.subscribers = s.subscribers)
    (hn : t.nextEmission = s.nextEmission) : t.Fed d (x.feed emission) := by
  have honce := h.once
  rw [hs] at honce
  obtain ⟨htop, hbelow⟩ := List.forall_mem_cons.mp honce
  have hrest : rest.count (.feeder d) = 0 := by
    change (EventSubscriber.feeder d :: rest).count (.feeder d) ≤ 1 at htop
    rw [List.count_cons_self] at htop
    omega
  have hout : .feeder d ∉ rest := List.count_eq_zero.mp hrest
  have horder : t.order d (x.feed emission) = s.order d x := by
    unfold order
    rw [pending_of_frames ht, pending_of_frames hs]
    simp [EventFrame.pending, hout, DrainCell.feed]
  have hhand : t.inHand d = s.inHand d := by
    rw [inHand_of_frames ht, inHand_of_frames hs]
    rfl
  constructor
  · rw [hhand]
    change x.received ++ [emission] = x.delivered ++ s.inHand d ++ (x.queue ++ [emission])
    rw [h.conserved]
    simp only [List.append_assoc]
  · have hw := h.window
    rw [hs, List.countP_cons] at hw
    rw [ht, List.countP_cons]
    exact hw
  · rw [horder]
    exact h.arrives
  · exact h.begun
  · rw [hn]
    exact h.recent
  · rw [horder]
    exact h.overtaken
  · rw [hr]
    exact h.registered
  · rw [ht]
    refine List.forall_mem_cons.mpr ⟨?_, hbelow⟩
    change rest.count (.feeder d) ≤ 1
    omega
  · exact h.opened
  · exact h.ready
  · exact fun _ _ => .inr (.inr (by rw [ht]; rfl))

theorem Fed.trigger (h : s.Fed d x) (hs : s.frames = .emitting emission [] :: frames)
    (ht : t.frames = frames) (hr : t.subscribers = s.subscribers)
    (hn : t.nextEmission = s.nextEmission) : t.Fed d x.mark := by
  have hmark : x.mark = { x with
      dirty := x.dirty || x.active && x.observing
      scheduled := x.scheduled || x.active && x.observing } := by
    unfold DrainCell.mark
    cases x.active && x.observing <;> simp
  have horder : t.order d x.mark = s.order d x := by
    unfold order pending
    rw [ht, hs, hmark]
    simp [EventFrame.pending]
  have hhand : t.inHand d = s.inHand d := by
    unfold inHand
    rw [ht, hs]
    rfl
  have honce := h.once
  rw [hs] at honce
  rw [hmark] at horder ⊢
  constructor
  · rw [hhand]
    exact h.conserved
  · have hw := h.window
    rw [hs, List.countP_cons] at hw
    rw [ht]
    exact hw
  · rw [horder]
    exact h.arrives
  · exact h.begun
  · rw [hn]
    exact h.recent
  · rw [horder]
    exact h.overtaken
  · rw [hr]
    exact h.registered
  · rw [ht]
    exact (List.forall_mem_cons.mp honce).2
  · exact h.opened
  · intro ha
    rcases h.ready ha with hobs | ⟨hsched, hdirty⟩
    · exact .inl hobs
    · exact .inr ⟨by simp [hsched], by simp [hdirty]⟩
  · -- what was fed before the mark is owed from now on
    intro ha _
    left
    rcases h.ready ha with hobs | ⟨hsched, hdirty⟩
    · rw [hobs, show x.active = true from ha]
      simp
    · exact ⟨by simp [hsched], by simp [hdirty]⟩

theorem Fed.deliver (h : s.Fed d x) {rest : List (Emission V)}
    (hs : s.frames = .draining d (emission :: rest) :: frames)
    (ht : t.frames = .handling :: .draining d rest :: frames) (hr : t.subscribers = s.subscribers)
    (hn : t.nextEmission = s.nextEmission) : t.Fed d (x.deliver emission) := by
  have hpending : t.pending d = s.pending d := by
    unfold pending
    rw [ht, hs]
    rfl
  have hsame := h.conserved
  rw [inHand_of_frames hs] at hsame
  have honce := h.once
  rw [hs] at honce
  constructor
  · rw [inHand_of_frames ht, List.flatMap_cons]
    simp only [DrainCell.deliver, EventFrame.inHand, if_true, List.nil_append] at hsame ⊢
    rw [hsame]
    simp only [List.append_assoc, List.cons_append, List.nil_append]
  · have hw := h.window
    rw [hs, List.countP_cons] at hw
    rw [ht, List.countP_cons, List.countP_cons]
    exact hw
  · unfold order
    rw [hpending]
    exact h.arrives
  · exact h.begun
  · rw [hn]
    exact h.recent
  · unfold order
    rw [hpending]
    exact h.overtaken
  · rw [hr]
    exact h.registered
  · rw [ht]
    exact List.forall_mem_cons.mpr ⟨trivial, List.forall_mem_cons.mpr
      ⟨trivial, (List.forall_mem_cons.mp honce).2⟩⟩
  · exact h.opened
  · exact h.ready
  · intro ha hq
    refine (h.owed ha hq).imp id (Or.imp id fun hany => ?_)
    rw [hs, List.any_cons] at hany
    rw [ht, List.any_cons, List.any_cons]
    exact hany

theorem Fed.settle (h : s.Fed d x) (hs : s.frames = .draining d [] :: frames)
    (ht : t.frames = frames) (hr : t.subscribers = s.subscribers)
    (hn : t.nextEmission = s.nextEmission) : t.Fed d x.settle := by
  have horder : t.order d x.settle = s.order d x := by
    unfold order pending
    rw [ht, hs]
    rfl
  have honce := h.once
  have hw := h.window
  have hsame := h.conserved
  rw [hs] at honce hw
  rw [inHand_of_frames hs] at hsame
  rw [List.countP_cons] at hw
  constructor
  · unfold inHand
    rw [ht]
    simpa [EventFrame.inHand, DrainCell.settle] using hsame
  · rw [ht]
    simp only [DrainCell.settle, EventFrame.isDraining, decide_true, if_true] at hw ⊢
    split at hw <;> simp_all
  · rw [horder]
    exact h.arrives
  · exact h.begun
  · rw [hn]
    exact h.recent
  · rw [horder]
    exact h.overtaken
  · rw [hr]
    exact h.registered
  · rw [ht]
    exact (List.forall_mem_cons.mp honce).2
  · intro hrun
    cases hrun
  · intro ha
    refine (h.ready ha).imp id fun hready => ⟨?_, hready.2⟩
    simp [DrainCell.settle, hready.1]
  · intro ha hq
    rcases h.owed ha hq with ⟨hsched, hdirty⟩ | ⟨-, hrerun, hdirty⟩ | hany
    · exact .inl ⟨by simp [DrainCell.settle, hsched], hdirty⟩
    · exact .inl ⟨by simp [DrainCell.settle, hrerun, show x.active = true from ha], hdirty⟩
    · rw [hs, List.any_cons] at hany
      exact .inr (.inr (by rw [ht]; exact hany))

theorem Fed.cell (h : s.Fed d x) (hf : t.frames = s.frames) (hn : t.nextEmission = s.nextEmission)
    (hsame : y.received = x.received ∧ y.delivered = x.delivered ∧ y.queue = x.queue ∧
      y.begun = x.begun ∧ y.overtaken = x.overtaken ∧ y.running = x.running ∧
      y.observing = x.observing)
    (hr : t.subscribers.count (.feeder d) = if y.active then 1 else 0)
    (hready : y.active = true → y.observing = true ∨ y.scheduled = true ∧ y.dirty = true)
    (howed : y.active = true → y.queue ≠ [] → y.scheduled = true ∧ y.dirty = true ∨
      y.running = true ∧ y.rerunAfterCurrent = true ∧ y.dirty = true ∨
        s.frames.any EventFrame.isEmitting = true) : t.Fed d y := by
  obtain ⟨h1, h2, h3, h4, h5, h6, h7⟩ := hsame
  have horder : t.order d y = s.order d x := by
    unfold order pending
    rw [h1, hf]
  have hhand : t.inHand d = s.inHand d := by
    unfold inHand
    rw [hf]
  constructor
  · rw [h1, h2, h3, hhand]
    exact h.conserved
  · rw [hf, h6]
    exact h.window
  · rw [horder, h4]
    exact h.arrives
  · rw [h4]
    exact h.begun
  · rw [h4, hn]
    exact h.recent
  · rw [horder, h5]
    exact h.overtaken
  · exact hr
  · rw [hf]
    exact h.once
  · rw [h6, h7]
    exact h.opened
  · exact hready
  · rw [hf]
    exact howed

theorem Fed.drain (h : s.Fed d x) (hrun : x.running = false)
    (ht : t.frames = .draining d x.queue :: s.frames) (hr : t.subscribers = s.subscribers)
    (hn : t.nextEmission = s.nextEmission) : t.Fed d x.drain := by
  have hw := h.window
  rw [hrun] at hw
  have hempty : s.inHand d = [] := by
    unfold inHand
    rw [List.flatMap_eq_nil_iff]
    intro f hf
    have hnot := List.countP_eq_zero.mp hw f hf
    cases f with
    | draining i rest =>
      simp only [EventFrame.isDraining, decide_eq_true_eq] at hnot
      simp [EventFrame.inHand, hnot]
    | _ => rfl
  have horder : t.order d x.drain = s.order d x := by
    unfold order pending
    rw [ht]
    rfl
  constructor
  · rw [inHand_of_frames ht]
    change x.received = x.delivered ++ (EventFrame.inHand d (.draining d x.queue) ++ s.inHand d) ++ []
    have hsame := h.conserved
    rw [hempty] at hsame ⊢
    simpa [EventFrame.inHand] using hsame
  · rw [ht, List.countP_cons, hw]
    simp [EventFrame.isDraining, DrainCell.drain]
  · rw [horder]
    exact h.arrives
  · exact h.begun
  · rw [hn]
    exact h.recent
  · rw [horder]
    exact h.overtaken
  · rw [hr]
    exact h.registered
  · rw [ht]
    exact List.forall_mem_cons.mpr ⟨trivial, h.once⟩
  · exact fun _ => rfl
  · exact fun _ => .inl rfl
  · exact fun _ hq => absurd rfl hq

theorem stranger_emitting {rest : List EventSubscriber} (hr : .feeder d ∉ rest) :
    (EventFrame.emitting emission rest).Stranger d := by
  refine ⟨by simp [EventFrame.pending, hr], rfl, rfl, ?_⟩
  change rest.count (.feeder d) ≤ 1
  rw [List.count_eq_zero.mpr hr]
  exact Nat.zero_le _

theorem stranger_draining {i : ℕ} {rest : List (Emission V)} (hi : i ≠ d) :
    (EventFrame.draining i rest).Stranger d :=
  ⟨rfl, by simp [EventFrame.inHand, hi], by simp [EventFrame.isDraining, hi], trivial⟩

theorem Unmade.fed (h : s.Unmade d) (ht : t.frames = s.frames)
    (hr : t.subscribers = s.subscribers ++ [.feeder d]) : t.Fed d ({} : DrainCell V) := by
  have hpending : t.pending d = [] := by
    unfold pending
    rw [ht, List.filterMap_eq_nil_iff]
    exact fun f hf => (h.frames f hf).pending
  have hhand : t.inHand d = [] := by
    unfold inHand
    rw [ht, List.flatMap_eq_nil_iff]
    exact fun f hf => (h.frames f hf).inHand
  constructor
  · rw [hhand]
    rfl
  · rw [ht]
    refine List.countP_eq_zero.mpr fun f hf => ?_
    rw [(h.frames f hf).draining]
    exact Bool.false_ne_true
  · unfold order
    rw [hpending]
    exact .refl _
  · exact .nil
  · exact fun a ha => by cases ha
  · unfold order
    rw [hpending]
    exact ⟨fun _ => .nil, fun _ => rfl⟩
  · rw [hr, List.count_append, List.count_eq_zero.mpr h.subscribers]
    simp
  · rw [ht]
    exact fun f hf => (h.frames f hf).once
  · exact fun hrun => by cases hrun
  · exact fun _ => .inr ⟨rfl, rfl⟩
  · exact fun _ hq => absurd rfl hq

theorem Unmade.step (h : s.Unmade d)
    (hs : .feeder d ∈ t.subscribers → .feeder d ∈ s.subscribers)
    (hf : ∀ f ∈ t.frames, f ∈ s.frames ∨ f.Stranger d) : t.Unmade d :=
  ⟨fun hin => h.subscribers (hs hin), fun f hin => (hf f hin).elim (h.frames f) id⟩

end Fed

section Orderly

/-- One cell is replaced; the others are left alone, as is whatever concerns them. -/
theorem Orderly.setDrain (h : s.Orderly) (hx : s.drains d = some x) (hd : t.drains = Function.update
      s.drains d (some y)) (hn : s.nextSubscriber ≤ t.nextSubscriber)
    (hu : ∀ i, i ≠ d → s.Unmade i → t.Unmade i) (hf : ∀ i z, i ≠ d → s.Fed i z → t.Fed i z)
    (hy : t.Fed d y) : t.Orderly := by
  constructor
  · intro i hi
    rw [hd, Function.update_apply] at hi
    refine Nat.lt_of_lt_of_le (h.made i fun hnone => ?_) hn
    by_cases hid : i = d
    · rw [hid, hx] at hnone
      cases hnone
    · rw [if_neg hid] at hi
      exact hi hnone
  · intro i hi
    rw [hd, Function.update_apply] at hi
    by_cases hid : i = d
    · rw [if_pos hid] at hi
      cases hi
    · rw [if_neg hid] at hi
      exact hu i hid (h.unmade i hi)
  · intro i z hz
    rw [hd, Function.update_apply] at hz
    by_cases hid : i = d
    · rw [if_pos hid, Option.some.injEq] at hz
      rw [← hz, hid]
      exact hy
    · rw [if_neg hid] at hz
      exact hf i z hid (h.fed i z hz)

theorem Orderly.mapDrains (h : s.Orderly) (g : ℕ → DrainCell V → DrainCell V)
    (hd : t.drains = fun i => (s.drains i).map (g i)) (hn : t.nextSubscriber = s.nextSubscriber)
    (hu : ∀ i, s.Unmade i → t.Unmade i) (hf : ∀ i z, s.Fed i z → t.Fed i (g i z)) : t.Orderly := by
  constructor
  · intro i hi
    rw [hn]
    refine h.made i fun hnone => hi ?_
    rw [hd]
    change (s.drains i).map (g i) = none
    rw [hnone]
    rfl
  · intro i hi
    rw [hd] at hi
    exact hu i (h.unmade i (Option.map_eq_none_iff.mp hi))
  · intro i z hz
    rw [hd] at hz
    obtain ⟨x, hx, rfl⟩ := Option.map_eq_some_iff.mp hz
    exact hf i x (h.fed i x hx)

theorem Orderly.same (h : s.Orderly) (hd : t.drains = s.drains)
    (hn : s.nextSubscriber ≤ t.nextSubscriber) (hu : ∀ i, s.drains i = none → s.Unmade i → t.Unmade i)
    (hf : ∀ i z, s.drains i = some z → s.Fed i z → t.Fed i z) : t.Orderly := by
  constructor
  · intro i hi
    rw [hd] at hi
    exact Nat.lt_of_lt_of_le (h.made i hi) hn
  · intro i hi
    rw [hd] at hi
    exact hu i hi (h.unmade i hi)
  · intro i z hz
    rw [hd] at hz
    exact hf i z hz (h.fed i z hz)

theorem Orderly.emit (h : s.Orderly) (value : V) : (s.emit value).Orderly := by
  refine h.mapDrains (fun d x => x.begin (s.nextEmission, value) !(s.pending d).isEmpty) rfl rfl
    (fun i hi => ?_) fun i z hz => hz.emit value
  refine hi.step id fun f hf => ?_
  rcases List.mem_cons.mp hf with rfl | hf
  · exact .inr (stranger_emitting hi.subscribers)
  · exact .inl hf

theorem Orderly.subscribe (h : s.Orderly) : s.subscribe.Orderly := by
  refine h.same rfl (Nat.le_succ _) (fun i _ hi => hi.step (fun hin => ?_) fun f hf => .inl hf)
    fun i z _ hz => hz.keep rfl rfl rfl ?_ hz.once (Nat.le_refl _) id
  · simpa [EventHost.subscribe] using hin
  · simp [EventHost.subscribe, List.count_append]

theorem Orderly.on (h : s.Orderly) : s.on.Orderly := by
  have hnone : s.drains s.nextSubscriber = none := by
    by_contra hne
    exact Nat.lt_irrefl _ (h.made _ hne)
  constructor
  · intro i hi
    change i < s.nextSubscriber + 1
    by_cases hid : i = s.nextSubscriber
    · omega
    · have hold := h.made i (by simpa [EventHost.on, EventHost.setDrain, hid] using hi)
      omega
  · intro i hi
    by_cases hid : i = s.nextSubscriber
    · simp [EventHost.on, EventHost.setDrain, hid] at hi
    · have hunmade := h.unmade i (by simpa [EventHost.on, EventHost.setDrain, hid] using hi)
      exact hunmade.step (fun hin => by simpa [EventHost.on, hid] using hin) fun f hf => .inl hf
  · intro i z hz
    by_cases hid : i = s.nextSubscriber
    · subst hid
      have hempty : z = {} := by simpa [EventHost.on, EventHost.setDrain] using hz.symm
      rw [hempty]
      exact (h.unmade _ hnone).fed rfl rfl
    · have hfed := h.fed i z (by simpa [EventHost.on, EventHost.setDrain, hid] using hz)
      refine hfed.keep rfl rfl rfl ?_ hfed.once (Nat.le_refl _) id
      simp [EventHost.on, List.count_append, Ne.symm hid]

theorem Fed.filter (h : s.Fed d x) {i : EventSubscriber} (hi : i ≠ .feeder d)
    (ht : t.frames = s.frames) (hr : t.subscribers = s.subscribers.filter fun j => j ≠ i)
    (hn : t.nextEmission = s.nextEmission) : t.Fed d x := by
  refine h.keep ?_ ?_ (by rw [ht]) ?_ (by rw [ht]; exact h.once) (Nat.le_of_eq hn.symm) (by rw [ht]; exact id)
  · unfold pending
    rw [ht]
  · unfold inHand
    rw [ht]
  · rw [hr]
    exact List.count_filter (by simpa using hi.symm)

theorem Orderly.unsubscribe (h : s.Orderly) (i : EventSubscriber) : (s.unsubscribe i).Orderly := by
  have hless : ∀ d, .feeder d ∈ s.subscribers.filter (fun j => j ≠ i) → .feeder d ∈ s.subscribers :=
    fun d hin => (List.mem_filter.mp hin).1
  unfold EventHost.unsubscribe
  dsimp only
  split
  next k =>
    exact h.same rfl (Nat.le_refl _) (fun d _ hd => hd.step (hless d) fun f hf => .inl hf)
      fun d z _ hz => hz.filter (by simp) rfl rfl rfl
  next d =>
    split
    next hd =>
      refine h.same rfl (Nat.le_refl _) (fun i _ hi => hi.step (hless i) fun f hf => .inl hf)
        fun i z hz hfed => hfed.filter ?_ rfl rfl rfl
      rintro ⟨⟩
      rw [hd] at hz
      cases hz
    next x hx =>
      refine h.setDrain hx rfl (Nat.le_refl _) (fun i _ hi => hi.step (hless i) fun f hf => .inl hf)
        (fun i z hi hz => hz.filter (by simpa using hi.symm) rfl rfl rfl) ?_
      refine (h.fed d x hx).cell rfl rfl ⟨rfl, rfl, rfl, rfl, rfl, rfl, rfl⟩ ?_ ?_ ?_
      · exact List.count_eq_zero.mpr fun hin => by simpa using (List.mem_filter.mp hin).2
      · exact fun ha => by cases ha
      · exact fun ha => by cases ha

/-- The count of the runs is nothing that a subscription gets or is to get. -/
theorem Fed.countRun (h : s.Fed d x) (drainEpoch : ℕ) :
    s.Fed d (x.countRun drainEpoch).1 ∧ (x.countRun drainEpoch).1.queue = x.queue ∧
      (x.countRun drainEpoch).1.running = x.running := by
  unfold DrainCell.countRun
  split
  · exact ⟨h.cell rfl rfl ⟨rfl, rfl, rfl, rfl, rfl, rfl, rfl⟩ h.registered h.ready h.owed, rfl, rfl⟩
  · exact ⟨h.cell rfl rfl ⟨rfl, rfl, rfl, rfl, rfl, rfl, rfl⟩ h.registered h.ready h.owed, rfl, rfl⟩

theorem Orderly.run (h : s.Orderly) (ht : s.run d = some t) (hc : t.cutOff = false) :
    t.Orderly := by
  unfold EventHost.run at ht
  split at ht
  · cases ht
  next x hx =>
    have hfed := h.fed d x hx
    split at ht
    · cases ht
    split at ht
    next hrun =>
      cases ht
      refine h.setDrain hx rfl (Nat.le_refl _) (fun i _ hi => hi.step id fun f hf => .inl hf)
        (fun i z _ hz => hz.keep rfl rfl rfl rfl hz.once (Nat.le_refl _) id) ?_
      refine hfed.cell rfl rfl ⟨rfl, rfl, rfl, rfl, rfl, rfl, rfl⟩ hfed.registered
        (fun _ => .inl (hfed.opened hrun)) fun ha hq => ?_
      -- the run is deferred, and the effect stays dirty
      rcases hfed.owed ha hq with ⟨-, hdirty⟩ | hdeferred | hany
      · exact .inr (.inl ⟨hrun, rfl, hdirty⟩)
      · exact .inr (.inl ⟨hrun, rfl, hdeferred.2.2⟩)
      · exact .inr (.inr hany)
    next hrun =>
      rw [Bool.not_eq_true] at hrun
      split at ht
      · obtain ⟨hcounted, hqueue, hsame⟩ := hfed.countRun s.drainEpoch
        dsimp only at ht
        split at ht
        · cases ht
          cases hc
        · cases ht
          refine h.setDrain hx rfl (Nat.le_refl _) (fun i hi hun => hun.step id fun f hf => ?_)
            (fun i z hi hz => hz.push (stranger_draining (Ne.symm hi)) rfl rfl rfl)
            (hcounted.drain (hsame.trans hrun) (by rw [hqueue]) rfl rfl)
          rcases List.mem_cons.mp hf with rfl | hf
          · exact .inr (stranger_draining (Ne.symm hi))
          · exact .inl hf
      next hdirty =>
        cases ht
        refine h.setDrain hx rfl (Nat.le_refl _) (fun i _ hi => hi.step id fun f hf => .inl hf)
          (fun i z _ hz => hz.keep rfl rfl rfl rfl hz.once (Nat.le_refl _) id) ?_
        refine hfed.cell rfl rfl ⟨rfl, rfl, rfl, rfl, rfl, rfl, rfl⟩ hfed.registered
          (fun ha => .inl ?_) fun ha hq => ?_
        · exact (hfed.ready ha).resolve_right fun hready => hdirty hready.2
        · rcases hfed.owed ha hq with howed | howed | hany
          · exact absurd howed.2 hdirty
          · exact absurd howed.2.2 hdirty
          · exact .inr (.inr hany)

theorem Unmade.top (h : s.Unmade d) (hs : s.frames = f :: frames) :
    f.Stranger d ∧ ∀ g ∈ frames, g ∈ s.frames :=
  ⟨h.frames f (by simp [hs]), fun g hg => by simp [hs, hg]⟩

theorem notMem_of_stranger {rest : List EventSubscriber}
    (h : (EventFrame.emitting emission rest).Stranger d) : .feeder d ∉ rest := by
  intro hin
  have hnone := h.pending
  simp [EventFrame.pending, hin] at hnone

theorem ne_of_stranger {i : ℕ} {rest : List (Emission V)}
    (h : (EventFrame.draining i rest).Stranger d) : i ≠ d := by
  simpa [EventFrame.isDraining] using h.draining

/-- The frame on top is replaced by others that are strangers where it was. -/
theorem Unmade.replace (h : s.Unmade d) (above : List (EventFrame V))
    (hs : s.frames = f :: frames) (ht : t.frames = above ++ frames)
    (hr : t.subscribers = s.subscribers) (ha : f.Stranger d → ∀ g ∈ above, g.Stranger d) :
    t.Unmade d := by
  obtain ⟨htop, hbelow⟩ := h.top hs
  refine h.step (by rw [hr]; exact id) fun g hg => ?_
  rw [ht, List.mem_append] at hg
  exact hg.elim (fun hg => .inr (ha htop g hg)) fun hg => .inl (hbelow g hg)

theorem stranger_rest {i : EventSubscriber} {rest : List EventSubscriber}
    (h : (EventFrame.emitting emission (i :: rest)).Stranger d) :
    (EventFrame.emitting emission rest).Stranger d :=
  stranger_emitting fun hin => notMem_of_stranger h (List.mem_cons_of_mem _ hin)

theorem stranger_calling : (EventFrame.calling : EventFrame V).Stranger d :=
  ⟨rfl, rfl, rfl, trivial⟩

theorem stranger_handling : (EventFrame.handling : EventFrame V).Stranger d :=
  ⟨rfl, rfl, rfl, trivial⟩

theorem stranger_flushing : (EventFrame.flushing : EventFrame V).Stranger d :=
  ⟨rfl, rfl, rfl, trivial⟩

theorem Orderly.push (h : s.Orderly) (hf : ∀ d, f.Stranger d) (ht : t.frames = f :: s.frames)
    (hd : t.drains = s.drains) (hr : t.subscribers = s.subscribers)
    (hn : t.nextSubscriber = s.nextSubscriber) (he : t.nextEmission = s.nextEmission) :
    t.Orderly := by
  refine h.same hd (Nat.le_of_eq hn.symm) (fun i _ hi => ?_) fun i z _ hz => hz.push (hf i) ht hr he
  refine hi.step (by rw [hr]; exact id) fun g hg => ?_
  rw [ht] at hg
  rcases List.mem_cons.mp hg with rfl | hg
  · exact .inr (hf i)
  · exact .inl hg

theorem Orderly.next (h : s.Orderly) (ht : s.next = some t) : t.Orderly := by
  unfold EventHost.next at ht
  split at ht
  next emission k rest frames hs =>
    cases ht
    refine h.same rfl (Nat.le_refl _) (fun i _ hi => ?_) fun i z _ hz => ?_
    · refine hi.replace [.calling, .emitting emission rest] hs rfl rfl fun htop => ?_
      exact List.forall_mem_cons.mpr ⟨stranger_calling,
        List.forall_mem_cons.mpr ⟨stranger_rest htop, fun g hg => by cases hg⟩⟩
    · have hmid : ({ s with frames := .emitting emission rest :: frames } : EventHost V).Fed i z :=
        hz.advance hs (by simp) rfl rfl rfl
      exact hmid.push stranger_calling rfl rfl rfl
  next emission d rest frames hs =>
    have hunmade : ∀ (u : EventHost V) (i : ℕ), u.frames = .emitting emission rest :: frames →
        u.subscribers = s.subscribers → s.Unmade i → u.Unmade i := by
      intro u i hu hr hi
      refine hi.replace [.emitting emission rest] hs hu hr fun htop => ?_
      exact List.forall_mem_cons.mpr ⟨stranger_rest htop, fun g hg => by cases hg⟩
    dsimp only at ht
    split at ht
    next hd =>
      -- nobody has registered such a feeder
      have hin := notMem_of_stranger ((h.unmade d hd).top hs).1
      exact absurd List.mem_cons_self hin
    next x hx =>
      cases ht
      exact h.setDrain hx rfl (Nat.le_refl _) (fun i _ hi => hunmade _ i rfl rfl hi)
        (fun i z hi hz => hz.advance hs (by simpa using Ne.symm hi) rfl rfl rfl)
        ((h.fed d x hx).feed hs rfl rfl rfl)
  next emission frames hs =>
    cases ht
    refine h.mapDrains (fun _ => DrainCell.mark) rfl rfl (fun i hi => ?_) fun i z hz =>
      hz.trigger hs rfl rfl rfl
    exact hi.replace [] hs rfl rfl fun _ g hg => by cases hg
  next d emission rest frames hs =>
    have hunmade : ∀ (u : EventHost V) (i : ℕ), i ≠ d →
        u.frames = .handling :: .draining d rest :: frames → u.subscribers = s.subscribers →
        s.Unmade i → u.Unmade i := by
      intro u i hid hu hr hi
      refine hi.replace [.handling, .draining d rest] hs hu hr fun _ => ?_
      exact List.forall_mem_cons.mpr ⟨stranger_handling, List.forall_mem_cons.mpr
        ⟨stranger_draining (Ne.symm hid), fun g hg => by cases hg⟩⟩
    dsimp only at ht
    split at ht
    next hd =>
      exact absurd rfl (ne_of_stranger ((h.unmade d hd).top hs).1)
    next x hx =>
      cases ht
      refine h.setDrain hx rfl (Nat.le_refl _) (fun i hid hi => hunmade _ i hid rfl rfl hi)
        (fun i z hi hz => ?_) ((h.fed d x hx).deliver hs rfl rfl rfl)
      have hpop : ({ s with frames } : EventHost V).Fed i z :=
        hz.pop (stranger_draining (Ne.symm hi)) hs rfl rfl rfl
      have hmid : ({ s with frames := .draining d rest :: frames } : EventHost V).Fed i z :=
        hpop.push (stranger_draining (Ne.symm hi)) rfl rfl rfl
      exact hmid.push stranger_handling rfl rfl rfl
  next d frames hs =>
    dsimp only at ht
    split at ht
    next hd =>
      exact absurd rfl (ne_of_stranger ((h.unmade d hd).top hs).1)
    next x hx =>
      cases ht
      exact h.setDrain hx rfl (Nat.le_refl _)
        (fun i _ hi => hi.replace [] hs rfl rfl fun _ g hg => by cases hg)
        (fun i z hi hz => hz.pop (stranger_draining (Ne.symm hi)) hs rfl rfl rfl)
        ((h.fed d x hx).settle hs rfl rfl rfl)
  · cases ht

theorem Orderly.pop (h : s.Orderly) (hs : s.frames = f :: frames)
    (hf : ∀ d, f.Stranger d) (hq : f.isEmitting = false) :
    ({ s with frames } : EventHost V).Orderly :=
  h.same rfl (Nat.le_refl _)
    (fun i _ hi => hi.replace [] hs rfl rfl fun _ g hg => by cases hg) fun i z _ hz =>
      hz.pop (hf i) hs hq rfl rfl

theorem Orderly.finish (h : s.Orderly)
    (hc : (s.calling && !s.frames.isEmpty || s.flushing && s.idle) = true) :
    ({ s with frames := s.frames.tail } : EventHost V).Orderly := by
  cases hs : s.frames with
  | nil => simp [calling, flushing, hs] at hc
  | cons f frames =>
    cases f with
    | calling => exact h.pop hs (fun _ => stranger_calling) rfl
    | handling => exact h.pop hs (fun _ => stranger_handling) rfl
    | flushing => exact h.pop hs (fun _ => stranger_flushing) rfl
    | emitting emission rest => simp [calling, flushing, hs, EventFrame.isCode, EventFrame.isFlushing] at hc
    | draining d rest => simp [calling, flushing, hs, EventFrame.isCode, EventFrame.isFlushing] at hc

/-- As long as no run is cut off, nothing unwinds and nothing is lost. -/
def Uncut (s : EventHost V) : Prop := s.cutOff = false → s.unwinding = false ∧ s.Orderly

theorem run_uncut (ht : s.run d = some t) (hc : t.cutOff = false) :
    s.cutOff = false ∧ t.unwinding = s.unwinding := by
  unfold EventHost.run at ht
  split at ht
  · cases ht
  · split at ht
    · cases ht
    · split at ht
      · cases ht
        exact ⟨hc, rfl⟩
      · split at ht
        · dsimp only at ht
          split at ht
          · cases ht
            cases hc
          · cases ht
            exact ⟨hc, rfl⟩
        · cases ht
          exact ⟨hc, rfl⟩

theorem next_uncut (ht : s.next = some t) : t.cutOff = s.cutOff ∧ t.unwinding = s.unwinding := by
  unfold EventHost.next at ht
  split at ht
  · cases ht
    exact ⟨rfl, rfl⟩
  · dsimp only at ht
    split at ht
    all_goals
      cases ht
      exact ⟨rfl, rfl⟩
  · cases ht
    exact ⟨rfl, rfl⟩
  · dsimp only at ht
    split at ht
    all_goals
      cases ht
      exact ⟨rfl, rfl⟩
  · dsimp only at ht
    split at ht
    all_goals
      cases ht
      exact ⟨rfl, rfl⟩
  · cases ht

theorem unwind_uncut (ht : s.unwind = some t) : t.cutOff = s.cutOff := by
  unfold EventHost.unwind at ht
  split at ht
  · cases ht
  · dsimp only at ht
    split at ht
    all_goals
      cases ht
      rfl
  · cases ht
    rfl

theorem Uncut.step {op : EventOp V} (h : s.Uncut) (ht : s.step op = some t) : t.Uncut := by
  intro hc
  cases op <;> simp only [EventHost.step] at ht <;> split at ht <;> try cases ht
  case emit value _ =>
    obtain ⟨hu, ho⟩ := h hc
    exact ⟨hu, ho.emit value⟩
  case subscribe =>
    obtain ⟨hu, ho⟩ := h hc
    exact ⟨hu, ho.subscribe⟩
  case on =>
    obtain ⟨hu, ho⟩ := h hc
    exact ⟨hu, ho.on⟩
  case unsubscribe i _ =>
    have hkept : (s.unsubscribe i).cutOff = s.cutOff ∧ (s.unsubscribe i).unwinding = s.unwinding := by
      unfold EventHost.unsubscribe
      dsimp only
      split
      · exact ⟨rfl, rfl⟩
      · split
        · exact ⟨rfl, rfl⟩
        · exact ⟨rfl, rfl⟩
    obtain ⟨hu, ho⟩ := h (hkept.1.symm.trans hc)
    exact ⟨hkept.2.trans hu, ho.unsubscribe i⟩
  case flush =>
    obtain ⟨hu, ho⟩ := h hc
    exact ⟨hu, ho.push (fun _ => stranger_flushing) rfl rfl rfl rfl rfl⟩
  case job =>
    obtain ⟨hu, ho⟩ := h hc
    exact ⟨hu, ho.push (fun _ => stranger_calling) rfl rfl rfl rfl rfl⟩
  case run d _ =>
    obtain ⟨hs, hsame⟩ := run_uncut ht hc
    obtain ⟨hu, ho⟩ := h hs
    exact ⟨hsame.trans hu, ho.run ht hc⟩
  case next =>
    obtain ⟨hs, hsame⟩ := next_uncut ht
    obtain ⟨hu, ho⟩ := h (hs.symm.trans hc)
    exact ⟨hsame.trans hu, ho.next ht⟩
  case finish hfin =>
    obtain ⟨hu, ho⟩ := h hc
    exact ⟨hu, ho.finish hfin⟩
  -- a panic is only on its way after a run was cut off
  case unwind hw =>
    exact absurd ((h ((unwind_uncut ht).symm.trans hc)).1.symm.trans hw) Bool.false_ne_true
  case catchUnwind hw =>
    rw [Bool.and_eq_true] at hw
    exact absurd ((h hc).1.symm.trans hw.1) Bool.false_ne_true

theorem orderly_empty : ({} : EventHost V).Orderly := by
  refine ⟨fun d hd => absurd rfl hd, fun d _ => ⟨fun hin => ?_, fun f hf => ?_⟩, fun d x hx => ?_⟩
  · cases hin
  · cases hf
  · cases hx

theorem Reached.orderly (h : s.Reached) (hc : s.cutOff = false) : s.Orderly :=
  (h.invariant Uncut (fun _ => ⟨rfl, orderly_empty⟩) (fun _ _ _ hP _ ht => hP.step ht) hc).2

end Orderly

/-- Once the reactor is flushed, and if no run of a draining effect was cut off, a subscription that
is still live has delivered every emission that began while it was subscribed, each once, and in the
order in which they began exactly if none of them began before its feeder was called for an earlier
one. -/
theorem drained_in_emission_order (h : s.Reached) (hc : s.cutOff = false) (hf : s.Flushed)
    (hx : s.drains d = some x) (ha : x.active = true) :
    x.delivered.Perm x.begun ∧ (x.delivered = x.begun ↔ x.overtaken = false) := by
  have hfed := (h.orderly hc).fed d x hx
  have hqueue : x.queue = [] := by
    by_contra hq
    have hrun : x.running = false := by
      have hw := hfed.window
      rw [hf.1] at hw
      by_contra hrun
      simp [hrun] at hw
    rcases hfed.owed ha hq with howed | howed | hany
    · simp [hf.2 d x hx] at howed
    · simp [hrun] at howed
    · simp [hf.1] at hany
  have hdelivered : s.order d x = x.delivered := by
    have hsame := hfed.conserved
    simp only [inHand, hf.1, List.flatMap_nil, List.append_nil, hqueue] at hsame
    simp [order, pending, hf.1, hsame]
  have hperm := hfed.arrives
  have hover := hfed.overtaken
  rw [hdelivered] at hperm hover
  refine ⟨hperm, ?_⟩
  rw [hover]
  constructor
  · intro heq
    rw [heq]
    exact hfed.begun
  · intro hpair
    refine hperm.eq_of_pairwise (fun a b _ _ hab hba => ?_) hpair hfed.begun
    omega

/-- An immediate subscriber echoes the first value while it is delivered. -/
def echo : List (EventOp ℕ) :=
  [.emit 1, .next, .emit 101, .next, .finish, .next, .next, .finish, .next, .next]

def lateEcho : List (EventOp ℕ) :=
  [.emit 1, .next, .next, .emit 101, .next, .next, .finish, .next, .finish, .next]

def drainBoth (d : ℕ) : List (EventOp ℕ) :=
  [.flush, .run d, .next, .finish, .next, .finish, .next, .finish]

def echoFirst : EventHost ℕ := Runs.after step {} ([.subscribe, .on] ++ echo ++ drainBoth 1)

def drainFirst : EventHost ℕ := Runs.after step {} ([.on, .subscribe] ++ lateEcho ++ drainBoth 0)

theorem flushed_of_drain (h : s.Orderly) (hf : s.frames.isEmpty = true)
    (hd : ∀ d < s.nextSubscriber, (s.drains d).all (fun x => !x.scheduled) = true) : s.Flushed := by
  refine ⟨List.isEmpty_iff.mp hf, fun d x hx => ?_⟩
  have hall := hd d (h.made d (by rw [hx]; exact Option.some_ne_none x))
  rw [hx] at hall
  simpa using hall

theorem echo_is_drained_in_order : ∃ x, drainFirst.drains 0 = some x ∧
    x.delivered = x.begun ∧ x.delivered = [(0, 1), (1, 101)] := by
  have hreached : drainFirst.Reached :=
    .after (fun _ _ => true) _ .init (by decide +kernel) (by decide +kernel)
  have hflushed : drainFirst.Flushed :=
    flushed_of_drain (hreached.orderly (by decide +kernel)) (by decide +kernel) (by decide +kernel)
  have hcell : (drainFirst.drains 0).map (fun x => (x.active, x.overtaken, x.delivered)) =
      some (true, false, [(0, 1), (1, 101)]) := by decide +kernel
  obtain ⟨x, hx, hview⟩ := Option.map_eq_some_iff.mp hcell
  simp only [Prod.mk.injEq] at hview
  exact ⟨x, hx, (drained_in_emission_order hreached (by decide +kernel) hflushed hx
    hview.1).2.mpr hview.2.1, hview.2.2⟩

/-- The echo is fed before the value that caused it. -/
theorem echo_overtakes : ∃ x, echoFirst.Reached ∧ echoFirst.Flushed ∧
    echoFirst.drains 1 = some x ∧ x.active = true ∧ x.begun = [(0, 1), (1, 101)] ∧
    x.delivered = [(1, 101), (0, 1)] := by
  have hreached : echoFirst.Reached :=
    .after (fun _ _ => true) _ .init (by decide +kernel) (by decide +kernel)
  have hcell : (echoFirst.drains 1).map (fun x => (x.active, x.begun, x.delivered)) =
      some (true, [(0, 1), (1, 101)], [(1, 101), (0, 1)]) := by decide +kernel
  obtain ⟨x, hx, hview⟩ := Option.map_eq_some_iff.mp hcell
  simp only [Prod.mk.injEq] at hview
  exact ⟨x, hreached,
    flushed_of_drain (hreached.orderly (by decide +kernel)) (by decide +kernel) (by decide +kernel),
    hx, hview⟩

end EventHost

end Adaptite
