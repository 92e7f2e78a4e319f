import Adaptite.Boundary
import Adaptite.Restoring
import Mathlib.Logic.Relation

set_option autoImplicit false

namespace Adaptite

open Unwinding

variable {V α : Type}

def World.Driven (w : World V) (f : FrameId) : Prop := ∃ e x, w.effects e = some x ∧ x.owner = f

/-- An `Owner` handle to the frame was given out. -/
def World.Handled (w : World V) (f : FrameId) : Prop :=
  ∃ y, w.frames f = some y ∧ y.handled = true

def World.Has (w : World V) : Owned → Prop
  | .effect e => (w.effects e).isSome
  | .scope f => (w.frames f).isSome
  | .subscription _ => True

/-- The owner that an effect or a scope was made under. -/
def World.ownerOf (w : World V) : Owned → Option FrameId
  | .effect e => (w.effects e).bind fun x => (w.frames x.owner).bind OwnerFrame.parent
  | .scope f => (w.frames f).bind OwnerFrame.parent
  | .subscription _ => none

def World.Ended (w : World V) : Owned → Prop
  | .effect e => w.Closed e
  | .scope f => ∃ y, w.frames f = some y ∧ y.disposed = true
  | .subscription _ => True

/-- It is on the list of an owner that is not disposed. -/
def World.Lists (w : World V) (p : FrameId) (o : Owned) : Prop :=
  ∃ y, w.frames p = some y ∧ y.disposed = false ∧ o ∈ y.children

/-- The frame of an effect is reached through the effect. -/
def World.Spared (w : World V) : Owned → Prop
  | .scope f => w.Driven f
  | _ => False

/-- Over, or where the disposal of the owner comes to it. -/
def World.Kept (w : World V) (o : Owned) : Prop :=
  ∀ p, w.ownerOf o = some p → w.Ended o ∨ w.Spared o ∨ w.Lists p o

/-- A scope whose body unwound is not handed over while a handle holds its frame. -/
def World.Held (w : World V) (o : Owned) : Prop :=
  w.Kept o ∨ ∃ f, o = .scope f ∧ w.Handled f

def World.Shut (w : World V) (e : NodeId) : Prop :=
  ∀ x, w.effects e = some x → x.disposed = true → w.Ended (.scope x.owner)

/-- Ids are given out in order, and every effect has a frame. -/
structure World.Fresh (w : World V) : Prop where
  frames : ∀ f y, w.frames f = some y → f < w.nextFrame
  effects : ∀ e x, w.effects e = some x → e < w.graph.nextNode ∧ ∃ y, w.frames x.owner = some y

structure World.Lasts (a b : World V) : Prop where
  frames : ∀ f x, a.frames f = some x → ∃ y, b.frames f = some y ∧ y.parent = x.parent ∧
    (x.disposed = true → y.disposed = true) ∧ (x.handled = true → y.handled = true)
  effects : ∀ e x, a.effects e = some x → ∃ y, b.effects e = some y ∧ y.owner = x.owner ∧
    (x.disposed = true → y.disposed = true)

/-- Everything is kept but what is in `K`, and every disposed effect has disposed its frame but
those in `S`. -/
structure World.Leaves (K : List Owned) (S : List NodeId) (a b : World V) : Prop where
  fresh : b.Fresh
  lasts : a.Lasts b
  kept : ∀ o, o ∉ K → a.Has o → a.Kept o → b.Kept o
  held : ∀ o, o ∉ K → a.Held o → b.Held o
  shut : ∀ e, e ∉ S → a.Shut e → b.Shut e

section Lasting

variable {a b c : World V} {o : Owned} {p f : FrameId} {K : List Owned} {S : List NodeId}

theorem World.Lasts.refl (a : World V) : a.Lasts a :=
  ⟨fun _ x hx => ⟨x, hx, rfl, id, id⟩, fun _ x hx => ⟨x, hx, rfl, id⟩⟩

theorem World.Lasts.trans (h : a.Lasts b) (h' : b.Lasts c) : a.Lasts c := by
  refine ⟨fun f x hx => ?_, fun e x hx => ?_⟩
  · obtain ⟨y, hy, hp, hd, hh⟩ := h.frames f x hx
    obtain ⟨z, hz, hp', hd', hh'⟩ := h'.frames f y hy
    exact ⟨z, hz, hp'.trans hp, fun i => hd' (hd i), fun i => hh' (hh i)⟩
  · obtain ⟨y, hy, hp, hd⟩ := h.effects e x hx
    obtain ⟨z, hz, hp', hd'⟩ := h'.effects e y hy
    exact ⟨z, hz, hp'.trans hp, fun i => hd' (hd i)⟩

theorem World.Lasts.has (h : a.Lasts b) (ho : a.Has o) : b.Has o := by
  cases o with
  | effect e =>
    obtain ⟨x, hx⟩ := Option.isSome_iff_exists.mp ho
    obtain ⟨y, hy, _⟩ := h.effects e x hx
    exact Option.isSome_iff_exists.mpr ⟨y, hy⟩
  | scope f =>
    obtain ⟨x, hx⟩ := Option.isSome_iff_exists.mp ho
    obtain ⟨y, hy, _⟩ := h.frames f x hx
    exact Option.isSome_iff_exists.mpr ⟨y, hy⟩
  | subscription s => trivial

theorem World.Lasts.closed {e : NodeId} (h : a.Lasts b) (hc : a.Closed e) : b.Closed e := by
  obtain ⟨x, hx, hd⟩ := hc
  obtain ⟨y, hy, _, hd'⟩ := h.effects e x hx
  exact ⟨y, hy, hd' hd⟩

theorem World.Lasts.ended (h : a.Lasts b) (ho : a.Ended o) : b.Ended o := by
  cases o with
  | effect e => exact h.closed ho
  | scope f =>
    obtain ⟨x, hx, hd⟩ := ho
    obtain ⟨y, hy, _, hd', _⟩ := h.frames f x hx
    exact ⟨y, hy, hd' hd⟩
  | subscription s => trivial

theorem World.Lasts.driven (h : a.Lasts b) (hf : a.Driven f) : b.Driven f := by
  obtain ⟨e, x, hx, ho⟩ := hf
  obtain ⟨y, hy, ho', _⟩ := h.effects e x hx
  exact ⟨e, y, hy, ho'.trans ho⟩

theorem World.Lasts.handled (h : a.Lasts b) (hf : a.Handled f) : b.Handled f := by
  obtain ⟨x, hx, hh⟩ := hf
  obtain ⟨y, hy, _, _, hh'⟩ := h.frames f x hx
  exact ⟨y, hy, hh' hh⟩

theorem World.Lasts.spared (h : a.Lasts b) (ho : a.Spared o) : b.Spared o := by
  cases o with
  | scope f => exact h.driven ho
  | effect e => exact ho
  | subscription s => exact ho

theorem ownerOf_effect {w : World V} {e : NodeId} {x : EffectInner V} {y : OwnerFrame V}
    (hx : w.effects e = some x) (hy : w.frames x.owner = some y) :
    w.ownerOf (.effect e) = y.parent := by
  unfold World.ownerOf
  simp [hx, hy]

theorem ownerOf_scope {w : World V} {y : OwnerFrame V} (hy : w.frames f = some y) :
    w.ownerOf (.scope f) = y.parent := by
  unfold World.ownerOf
  simp [hy]

theorem World.Lasts.ownerOf (h : a.Lasts b) (ha : a.Fresh) (ho : a.Has o) :
    b.ownerOf o = a.ownerOf o := by
  cases o with
  | effect e =>
    obtain ⟨x, hx⟩ := Option.isSome_iff_exists.mp ho
    obtain ⟨_, y, hy⟩ := ha.effects e x hx
    obtain ⟨x', hx', hxo, _⟩ := h.effects e x hx
    obtain ⟨y', hy', hyp, _⟩ := h.frames x.owner y hy
    rw [ownerOf_effect hx hy, ownerOf_effect hx' (hxo ▸ hy'), hyp]
  | scope f =>
    obtain ⟨x, hx⟩ := Option.isSome_iff_exists.mp ho
    obtain ⟨x', hx', hp, _⟩ := h.frames f x hx
    rw [ownerOf_scope hx, ownerOf_scope hx', hp]
  | subscription s => rfl

theorem kept_of_not_has {w : World V} (h : ¬ w.Has o) : w.Kept o := by
  intro p hp
  cases o with
  | effect e =>
    have hnone : w.effects e = none := Option.not_isSome_iff_eq_none.mp h
    unfold World.ownerOf at hp
    simp [hnone] at hp
  | scope f =>
    have hnone : w.frames f = none := Option.not_isSome_iff_eq_none.mp h
    unfold World.ownerOf at hp
    simp [hnone] at hp
  | subscription s => exact absurd trivial h

theorem kept_of_ended {w : World V} (h : w.Ended o) : w.Kept o := fun _ _ => .inl h

theorem kept_of_driven {w : World V} (h : w.Driven f) : w.Kept (.scope f) :=
  fun _ _ => .inr (.inl h)

/-- A change that takes nothing from a list but what is over. -/
theorem World.Lasts.leaves (h : a.Lasts b) (ha : a.Fresh) (hb : b.Fresh)
    (has : ∀ o, o ∉ K → b.Has o → a.Has o)
    (lists : ∀ p o, o ∉ K → a.Has o → a.Lists p o → b.Lists p o ∨ b.Ended o)
    (shut : ∀ e, e ∉ S → b.Closed e → a.Closed e) : a.Leaves K S b := by
  have hkept : ∀ o, o ∉ K → a.Has o → a.Kept o → b.Kept o := by
    intro o hk ho hkept p hp
    rw [h.ownerOf ha ho] at hp
    rcases hkept p hp with hend | hspare | hlist
    · exact .inl (h.ended hend)
    · exact .inr (.inl (h.spared hspare))
    · rcases lists p o hk ho hlist with hlist | hend
      · exact .inr (.inr hlist)
      · exact .inl hend
  refine ⟨hb, h, hkept, fun o hk hheld => ?_, fun e hs hshut x hx hd => ?_⟩
  · by_cases ho : b.Has o
    · rcases hheld with hheld | ⟨f, rfl, hf⟩
      · exact .inl (hkept o hk (has o hk ho) hheld)
      · exact .inr ⟨f, rfl, h.handled hf⟩
    · exact .inl (kept_of_not_has ho)
  · obtain ⟨y, hy, hyd⟩ := shut e hs ⟨x, hx, hd⟩
    obtain ⟨x', hx', howner, _⟩ := h.effects e y hy
    cases hx.symm.trans hx'
    rw [howner]
    exact h.ended (hshut y hy hyd)

theorem World.Leaves.refl (ha : a.Fresh) : a.Leaves [] [] a :=
  ⟨ha, .refl a, fun _ _ _ => id, fun _ _ => id, fun _ _ => id⟩

theorem World.Leaves.trans (h : a.Leaves K S b) (h' : b.Leaves K S c) : a.Leaves K S c := by
  refine ⟨h'.fresh, h.lasts.trans h'.lasts, fun o hk ho hkept => ?_, fun o hk hheld => ?_,
    fun e hs hshut => ?_⟩
  · exact h'.kept o hk (h.lasts.has ho) (h.kept o hk ho hkept)
  · exact h'.held o hk (h.held o hk hheld)
  · exact h'.shut e hs (h.shut e hs hshut)

theorem World.Leaves.weaken (h : a.Leaves [] [] b) : a.Leaves K S b :=
  ⟨h.fresh, h.lasts, fun o _ => h.kept o List.not_mem_nil, fun o _ => h.held o List.not_mem_nil,
    fun e _ => h.shut e List.not_mem_nil⟩

theorem World.Leaves.made_good (h : a.Leaves K S b)
    (kept : ∀ o ∈ K, b.Held o ∧ (a.Has o → b.Kept o)) (shut : ∀ e ∈ S, b.Shut e) :
    a.Leaves [] [] b := by
  refine ⟨h.fresh, h.lasts, fun o _ ho hkept => ?_, fun o _ hheld => ?_, fun e _ hshut => ?_⟩
  · by_cases hk : o ∈ K
    · exact (kept o hk).2 ho
    · exact h.kept o hk ho hkept
  · by_cases hk : o ∈ K
    · exact (kept o hk).1
    · exact h.held o hk hheld
  · by_cases hs : e ∈ S
    · exact shut e hs
    · exact h.shut e hs hshut

end Lasting

section Changes

variable {w a b : World V} {f : FrameId} {K : List Owned}

theorem World.Kin.back (h : a.Kin b) {e : NodeId} {y : EffectInner V} (hy : b.effects e = some y) :
    ∃ x, a.effects e = some x ∧ x.title = y.title := by
  have ht := h.effects e
  rw [hy] at ht
  exact Option.map_eq_some_iff.mp ht.symm

theorem World.Kin.lasts (h : a.Kin b) : a.Lasts b := by
  refine ⟨fun f x hx => ⟨x, h.frames ▸ hx, rfl, id, id⟩, fun e x hx => ?_⟩
  have ht := h.effects e
  rw [hx] at ht
  obtain ⟨y, hy, hxy⟩ := Option.map_eq_some_iff.mp ht
  obtain ⟨ho, hd⟩ := Prod.mk.inj hxy
  exact ⟨y, hy, ho, fun i => hd.trans i⟩

theorem World.Kin.leaves (h : a.Kin b) (ha : a.Fresh) : a.Leaves [] [] b := by
  refine h.lasts.leaves ha ⟨fun f y hy => ?_, fun e y hy => ?_⟩ (fun o _ ho => ?_)
    (fun p o _ _ hl => .inl ?_) fun e _ hc => ?_
  · rw [h.nextFrame]
    exact ha.frames f y (h.frames ▸ hy)
  · obtain ⟨x, hx, hxy⟩ := h.back hy
    obtain ⟨howner, _⟩ := Prod.mk.inj hxy
    obtain ⟨hlt, hframe⟩ := ha.effects e x hx
    exact ⟨lt_of_lt_of_le hlt h.nextNode, by rw [h.frames, ← howner]; exact hframe⟩
  · cases o with
    | effect e =>
      obtain ⟨y, hy⟩ := Option.isSome_iff_exists.mp ho
      obtain ⟨x, hx, _⟩ := h.back hy
      exact Option.isSome_iff_exists.mpr ⟨x, hx⟩
    | scope f =>
      unfold World.Has at ho ⊢
      dsimp only at ho ⊢
      rwa [h.frames] at ho
    | subscription s => trivial
  · unfold World.Lists at hl ⊢
    rwa [h.frames]
  · obtain ⟨y, hy, hd⟩ := hc
    obtain ⟨x, hx, hxy⟩ := h.back hy
    obtain ⟨_, hdisposed⟩ := Prod.mk.inj hxy
    exact ⟨x, hx, hdisposed.trans hd⟩

theorem frames_modifyFrame {g : OwnerFrame V → OwnerFrame V} {i : FrameId} {y : OwnerFrame V}
    (hy : (w.modifyFrame f g).frames i = some y) :
    ∃ x, w.frames i = some x ∧ y = if i = f then g x else x := by
  unfold World.modifyFrame at hy
  dsimp only at hy
  by_cases hi : i = f
  · subst hi
    rw [Function.update_self] at hy
    obtain ⟨x, hx, rfl⟩ := Option.map_eq_some_iff.mp hy
    exact ⟨x, hx, (if_pos rfl).symm⟩
  · rw [Function.update_of_ne hi] at hy
    exact ⟨y, hy, (if_neg hi).symm⟩

theorem modifyFrame_frames (f : FrameId) (g : OwnerFrame V → OwnerFrame V) {i : FrameId}
    {x : OwnerFrame V} (hx : w.frames i = some x) :
    (w.modifyFrame f g).frames i = some (if i = f then g x else x) := by
  unfold World.modifyFrame
  dsimp only
  by_cases hi : i = f
  · subst hi
    rw [Function.update_self, if_pos rfl, hx]
    rfl
  · rw [Function.update_of_ne hi, if_neg hi, hx]

/-- A change of one frame that takes from its list what is in `K`, and what is over. -/
theorem modifyFrame_leaves (ha : w.Fresh) (f : FrameId) (g : OwnerFrame V → OwnerFrame V)
    (parent : ∀ x, (g x).parent = x.parent)
    (disposed : ∀ x, x.disposed = true → (g x).disposed = true)
    (handled : ∀ x, x.handled = true → (g x).handled = true)
    (lists : ∀ x, w.frames f = some x → x.disposed = false → ∀ o ∈ x.children, o ∉ K → w.Has o →
      ((g x).disposed = false ∧ o ∈ (g x).children) ∨ w.Ended o) :
    w.Leaves K [] (w.modifyFrame f g) := by
  have hlasts : w.Lasts (w.modifyFrame f g) := by
    refine ⟨fun i x hx => ⟨_, modifyFrame_frames f g hx, ?_⟩, fun _ x hx => ⟨x, hx, rfl, id⟩⟩
    split
    · exact ⟨parent x, disposed x, handled x⟩
    · exact ⟨rfl, id, id⟩
  refine hlasts.leaves ha ⟨fun i y hy => ?_, fun e x hx => ?_⟩ (fun o _ ho => ?_)
    (fun p o hk ho hl => ?_) fun _ _ hc => hc
  · obtain ⟨x, hx, _⟩ := frames_modifyFrame hy
    exact ha.frames i x hx
  · obtain ⟨hlt, y, hy⟩ := ha.effects e x hx
    exact ⟨hlt, _, modifyFrame_frames f g hy⟩
  · cases o with
    | effect e => exact ho
    | scope i =>
      obtain ⟨y, hy⟩ := Option.isSome_iff_exists.mp ho
      obtain ⟨x, hx, _⟩ := frames_modifyFrame hy
      exact Option.isSome_iff_exists.mpr ⟨x, hx⟩
    | subscription s => trivial
  · obtain ⟨x, hx, hd, ho'⟩ := hl
    by_cases hp : p = f
    · subst hp
      rcases lists x hx hd o ho' hk ho with ⟨hd', hmem⟩ | hend
      · refine .inl ⟨g x, ?_, hd', hmem⟩
        rw [modifyFrame_frames p g hx, if_pos rfl]
      · exact .inr (hlasts.ended hend)
    · refine .inl ⟨x, ?_, hd, ho'⟩
      rw [modifyFrame_frames f g hx, if_neg hp]

theorem tend_leaves (ha : w.Fresh) (f : FrameId) (g : OwnerFrame V → OwnerFrame V)
    (h : ∀ x : OwnerFrame V, x.Tended (g x)) : w.Leaves [] [] (w.modifyFrame f g) := by
  refine modifyFrame_leaves ha f g (fun x => (h x).parent) (fun x hd => (h x).disposed.trans hd)
    (fun x => (h x).handled) fun x _ hd o ho _ _ => .inl ⟨(h x).disposed.trans hd, ?_⟩
  rw [(h x).children]
  exact ho

theorem ended_of_disposed {o : Owned} (ho : w.Has o) (h : w.isDisposedOwned o = true) :
    w.Ended o := by
  cases o with
  | effect e =>
    obtain ⟨x, hx⟩ := Option.isSome_iff_exists.mp ho
    simp only [World.isDisposedOwned, hx, Option.map_some, Option.getD_some] at h
    exact ⟨x, hx, h⟩
  | scope f =>
    obtain ⟨x, hx⟩ := Option.isSome_iff_exists.mp ho
    simp only [World.isDisposedOwned, hx, Option.map_some, Option.getD_some] at h
    exact ⟨x, hx, h⟩
  | subscription s => trivial

theorem adopt_leaves (ha : w.Fresh) (f : FrameId) (child : Owned) :
    w.Leaves [] [] (w.adopt f child) := by
  refine modifyFrame_leaves ha f _ (fun x => ?_) (fun x hd => ?_) (fun x hh => ?_)
    fun x _ hd o ho _ hhas => ?_
  · split <;> rfl
  · split <;> exact hd
  · split <;> exact hh
  · by_cases hend : w.isDisposedOwned o = true
    · exact .inr (ended_of_disposed hhas hend)
    · have hkept : o ∈ x.children.filter fun c => !w.isDisposedOwned c :=
        List.mem_filter.mpr ⟨ho, by simpa using hend⟩
      left
      split
      · exact ⟨hd, List.mem_append_left _ ho⟩
      · exact ⟨hd, List.mem_append_left _ hkept⟩

theorem adopt_lists {y : OwnerFrame V} (child : Owned) (hy : w.frames f = some y)
    (hd : y.disposed = false) : (w.adopt f child).Lists f child := by
  refine ⟨_, modifyFrame_frames f _ hy, ?_⟩
  rw [if_pos rfl]
  split
  · exact ⟨hd, List.mem_append_right _ List.mem_cons_self⟩
  · exact ⟨hd, List.mem_append_right _ List.mem_cons_self⟩

theorem clear_leaves (ha : w.Fresh) {y : OwnerFrame V} (hy : w.frames f = some y) :
    w.Leaves y.children [] (w.modifyFrame f fun frame =>
      { frame with cleanups := [], children := [], sweptAt := 0 }) := by
  refine modifyFrame_leaves ha f _ (fun _ => rfl) (fun _ => id) (fun _ => id)
    fun x hx _ o ho hk _ => ?_
  cases hx.symm.trans hy
  exact absurd ho hk

theorem flag_leaves (ha : w.Fresh) {y : OwnerFrame V} (hy : w.frames f = some y) :
    w.Leaves y.children [] (w.modifyFrame f fun frame => { frame with disposed := true }) := by
  refine modifyFrame_leaves ha f _ (fun _ => rfl) (fun _ _ => rfl) (fun _ => id)
    fun x hx _ o ho hk _ => ?_
  cases hx.symm.trans hy
  exact absurd ho hk

theorem newFrame_fresh (ha : w.Fresh) : w.frames w.nextFrame = none := by
  by_contra h
  obtain ⟨y, hy⟩ := Option.ne_none_iff_exists'.mp h
  exact lt_irrefl _ (ha.frames _ y hy)

theorem newFrame_frames (handler : Option (Payload V → Prog V)) {x : OwnerFrame V} (ha : w.Fresh)
    (hx : w.frames f = some x) : (w.newFrame handler).frames f = some x := by
  have hne : f ≠ w.nextFrame := (ha.frames f x hx).ne
  unfold World.newFrame
  dsimp only
  rw [Function.update_of_ne hne, hx]

theorem frames_newFrame {handler : Option (Payload V → Prog V)} {y : OwnerFrame V}
    (hf : f ≠ w.nextFrame) (hy : (w.newFrame handler).frames f = some y) : w.frames f = some y := by
  unfold World.newFrame at hy
  dsimp only at hy
  rwa [Function.update_of_ne hf] at hy

theorem newFrame_leaves (ha : w.Fresh) (handler : Option (Payload V → Prog V)) :
    w.Leaves [.scope w.nextFrame] [] (w.newFrame handler) := by
  have hlasts : w.Lasts (w.newFrame handler) :=
    ⟨fun f x hx => ⟨x, newFrame_frames handler ha hx, rfl, id, id⟩, fun _ x hx => ⟨x, hx, rfl, id⟩⟩
  refine hlasts.leaves ha ⟨fun i y hy => ?_, fun e x hx => ?_⟩ (fun o hk ho => ?_)
    (fun p o _ _ hl => .inl ?_) fun _ _ hc => hc
  · by_cases hi : i = w.nextFrame
    · exact hi ▸ Nat.lt_succ_self w.nextFrame
    · exact Nat.lt_succ_of_lt (ha.frames i y (frames_newFrame hi hy))
  · obtain ⟨hlt, y, hy⟩ := ha.effects e x hx
    exact ⟨hlt, y, newFrame_frames handler ha hy⟩
  · cases o with
    | effect e => exact ho
    | scope i =>
      have hi : i ≠ w.nextFrame := by
        rintro rfl
        exact hk List.mem_cons_self
      obtain ⟨y, hy⟩ := Option.isSome_iff_exists.mp ho
      exact Option.isSome_iff_exists.mpr ⟨y, frames_newFrame hi hy⟩
    | subscription s => trivial
  · obtain ⟨y, hy, hd, ho⟩ := hl
    exact ⟨y, newFrame_frames handler ha hy, hd, ho⟩

theorem effects_newEffect {body : Body V} {external : Bool} {e : NodeId} :
    (w.newEffect body external).effects e = if e = w.graph.nextNode then
      some { body, external, owner := w.nextFrame } else w.effects e := by
  unfold World.newEffect
  dsimp only
  rw [Function.update_apply]

/-- An effect and its frame are made before anyone adopts the effect. -/
theorem newEffect_leaves (ha : w.Fresh) (body : Body V) (external : Bool) :
    w.Leaves [.effect w.graph.nextNode, .scope w.nextFrame] [] (w.newEffect body external) := by
  have hnone : ∀ e x, w.effects e = some x → e ≠ w.graph.nextNode :=
    fun e x hx => (ha.effects e x hx).1.ne
  have hframe : w.Leaves [.scope w.nextFrame] [] (w.newFrame none) := newFrame_leaves ha none
  have hlasts : w.Lasts (w.newEffect body external) := by
    refine ⟨hframe.lasts.frames, fun e x hx => ⟨x, ?_, rfl, id⟩⟩
    rw [effects_newEffect, if_neg (hnone e x hx), hx]
  refine hlasts.leaves ha ⟨hframe.fresh.frames, fun e x hx => ?_⟩ (fun o hk ho => ?_)
    (fun p o _ _ hl => .inl ?_) fun e _ hc => ?_
  · rw [effects_newEffect] at hx
    split at hx
    · rename_i he
      cases hx
      refine ⟨he ▸ Nat.lt_succ_self _, ?_⟩
      refine ⟨{ parent := w.currentOwner }, ?_⟩
      exact Function.update_self ..
    · obtain ⟨hlt, y, hy⟩ := ha.effects e x hx
      exact ⟨Nat.lt_succ_of_lt hlt, y, newFrame_frames none ha hy⟩
  · cases o with
    | effect e =>
      have he : e ≠ w.graph.nextNode := by
        rintro rfl
        exact hk List.mem_cons_self
      unfold World.Has at ho ⊢
      dsimp only at ho ⊢
      rwa [effects_newEffect, if_neg he] at ho
    | scope i =>
      have hi : i ≠ w.nextFrame := by
        rintro rfl
        exact hk (List.mem_cons_of_mem _ List.mem_cons_self)
      obtain ⟨y, hy⟩ := Option.isSome_iff_exists.mp ho
      exact Option.isSome_iff_exists.mpr ⟨y, frames_newFrame hi hy⟩
    | subscription s => trivial
  · obtain ⟨y, hy, hd, ho⟩ := hl
    exact ⟨y, newFrame_frames none ha hy, hd, ho⟩
  · obtain ⟨x, hx, hd⟩ := hc
    rw [effects_newEffect] at hx
    split at hx
    · cases hx
      cases hd
    · exact ⟨x, hx, hd⟩

theorem closing_leaves (ha : w.Fresh) (e : NodeId) : w.Leaves [] [e] (w.closing e) := by
  have hother : ∀ i, i ≠ e → (w.modifyEffect e fun x => { x with disposed := true }).effects i =
      w.effects i := fun i hi => Function.update_of_ne hi ..
  have hsame : (w.modifyEffect e fun x => { x with disposed := true }).effects e =
      (w.effects e).map fun x => { x with disposed := true } := Function.update_self ..
  have hback : ∀ i y, (w.modifyEffect e fun x => { x with disposed := true }).effects i = some y →
      ∃ x, w.effects i = some x ∧ x.owner = y.owner := by
    intro i y hy
    by_cases hi : i = e
    · subst hi
      rw [hsame] at hy
      obtain ⟨x, hx, rfl⟩ := Option.map_eq_some_iff.mp hy
      exact ⟨x, hx, rfl⟩
    · exact ⟨y, hother i hi ▸ hy, rfl⟩
  have hlasts : w.Lasts (w.modifyEffect e fun x => { x with disposed := true }) := by
    refine ⟨fun _ x hx => ⟨x, hx, rfl, id, id⟩, fun i x hx => ?_⟩
    by_cases hi : i = e
    · subst hi
      exact ⟨{ x with disposed := true }, by rw [hsame, hx]; rfl, rfl, fun _ => rfl⟩
    · exact ⟨x, by rw [hother i hi, hx], rfl, id⟩
  have hflag : w.Leaves [] [e] (w.modifyEffect e fun x => { x with disposed := true }) := by
    refine hlasts.leaves ha ⟨ha.frames, fun i y hy => ?_⟩ (fun o _ ho => ?_)
      (fun p o _ _ hl => .inl hl) fun i hi hc => ?_
    · obtain ⟨x, hx, howner⟩ := hback i y hy
      exact howner ▸ ha.effects i x hx
    · cases o with
      | effect i =>
        obtain ⟨y, hy⟩ := Option.isSome_iff_exists.mp ho
        obtain ⟨x, hx, _⟩ := hback i y hy
        exact Option.isSome_iff_exists.mpr ⟨x, hx⟩
      | scope f => exact ho
      | subscription s => trivial
    · obtain ⟨y, hy, hd⟩ := hc
      rw [hother i fun h => hi (h ▸ List.mem_cons_self)] at hy
      exact ⟨y, hy, hd⟩
  exact hflag.trans ((still_unlatch _ e).leaves hflag.fresh).weaken

end Changes

/-- Everything is kept, and in the end the entries of `L` are over. -/
def Takes (L : List Owned) (a b : World V) : Prop :=
  a.Fresh → a.Leaves [] [] b ∧ ∀ o ∈ L, b.Ended o

abbrev Fosters : World V → World V → Prop := Takes []

/-- Everything is kept, and `o` is in the end. -/
def Brings (o : Owned) (a b : World V) : Prop := a.Fresh → a.Leaves [] [] b ∧ b.Kept o

/-- A disposal comes to an end with its entry over, whether it returns or unwinds. -/
def Disposes (c : Calls V) : Prop := ∀ o, Act.Moves (Takes [o]) (c.dispose o)

section Rules

variable {env : Enumeration} {w a b d : World V} {K L : List Owned} {o : Owned}

theorem World.Leaves.fosters (h : a.Fresh → a.Leaves [] [] b) : Fosters a b :=
  fun ha => ⟨h ha, fun _ ho => absurd ho List.not_mem_nil⟩

theorem World.Kin.fosters (h : a.Kin b) : Fosters a b := World.Leaves.fosters h.leaves

theorem Takes.refl (w : World V) : Fosters w w := World.Leaves.fosters .refl

theorem Takes.trans (h : Takes K a b) (h' : Takes L b d) : Takes L a d := by
  intro ha
  obtain ⟨hab, _⟩ := h ha
  obtain ⟨hbd, hend⟩ := h' hab.fresh
  exact ⟨hab.trans hbd, hend⟩

theorem Takes.followed (h : Takes L a b) (h' : Fosters b d) : Takes L a d := by
  intro ha
  obtain ⟨hab, hend⟩ := h ha
  obtain ⟨hbd, _⟩ := h' hab.fresh
  exact ⟨hab.trans hbd, fun o ho => hbd.lasts.ended (hend o ho)⟩

theorem Takes.single (h : a.Fresh → a.Leaves [] [] b ∧ b.Ended o) : Takes [o] a b :=
  fun ha => ⟨(h ha).1, List.forall_mem_singleton.mpr (h ha).2⟩

theorem Takes.fosters (h : Takes L a b) : Fosters a b := World.Leaves.fosters fun ha => (h ha).1

theorem Takes.brings (h : Takes [o] a b) : Brings o a b := by
  intro ha
  obtain ⟨hab, hend⟩ := h ha
  exact ⟨hab, kept_of_ended (hend o List.mem_cons_self)⟩

theorem Takes.cons (h : Takes [o] a b) (h' : Takes L b d) : Takes (o :: L) a d := by
  intro ha
  obtain ⟨hab, hend⟩ := h ha
  obtain ⟨hbd, hends⟩ := h' hab.fresh
  refine ⟨hab.trans hbd, List.forall_mem_cons.mpr ⟨?_, hends⟩⟩
  exact hbd.lasts.ended (hend o List.mem_cons_self)

theorem Fosters.trans (a b d : World V) (h : Fosters a b) (h' : Fosters b d) : Fosters a d :=
  Takes.trans h h'

variable {body : Run V α}

theorem Takes.bracket {g k : World V → World V} (hg : w.Kin (g w))
    (hk : ∀ t : World V, t.Kin (k t)) (h : Act.Moves (Takes L) body) :
    Act.MovesAt (Takes L) (Act.modify g >>= fun _ => body.guarded (Act.modify k)) w :=
  .bracket (h _) fun t ht => .modify ((Takes.trans hg.fosters ht).followed (hk t).fosters)

theorem Takes.untrack (h : Act.Moves (Takes L) body) : Act.Moves (Takes L) (untrack body) :=
  fun _ => Takes.bracket (.same rfl rfl rfl rfl) (fun _ => .same rfl rfl rfl rfl) h

theorem Takes.withOwner (entry : Option FrameId) (h : Act.Moves (Takes L) body) :
    Act.Moves (Takes L) (withOwner entry body) :=
  fun _ => Takes.bracket (.same rfl rfl rfl rfl) (fun _ => .same rfl rfl rfl rfl) h

theorem Takes.inTeardown (h : Act.Moves (Takes L) body) :
    Act.Moves (Takes L) (inTeardown body) :=
  fun _ => Takes.bracket (.same rfl rfl rfl rfl) (fun _ => .same rfl rfl rfl rfl) h

theorem Fosters.externalFlush (h : Act.Moves Fosters body) :
    Act.Moves Fosters (externalFlush body) := by
  intro w
  change Act.MovesAt Fosters (Act.modify (fun w : World V =>
    { w with flush := w.flush.beginFlush.1 }) >>= fun _ => body.guarded endFlush) w
  exact Takes.bracket (.same rfl rfl rfl rfl) (fun _ => .same rfl rfl rfl rfl) h

theorem Fosters.runInContext (n : NodeId) (h : Act.Moves Fosters body) :
    Act.Moves Fosters (runInContext env n body) := by
  intro w
  refine .get_bind ?_
  split
  · exact .raise (Takes.refl w) _
  · refine Takes.bracket (enter_still w n).1 (fun t => (leave_still t w.untracked).1) ?_
    refine h.bind Fosters.trans fun v t => ?_
    have hpush : t.Kin (t.push (.finished n)) := .same rfl rfl rfl rfl
    exact .modify_bind Fosters.trans hpush.fosters (.pure (Takes.refl _) v)

theorem Fosters.drained {body : Run V Unit} (h : Act.Moves Fosters body) :
    Act.Moves Fosters (Act.modify (fun w => { w with flush := w.flush.openDrain.enterDrain }) >>=
      fun _ => body.guarded (Act.modify fun w => { w with flush := w.flush.leaveDrain.rearm })) :=
  fun _ => Takes.bracket (.same rfl rfl rfl rfl) (fun _ => .same rfl rfl rfl rfl) h

theorem Fosters.carries (env : Enumeration) :
    Carries env (Fosters : World V → World V → Prop) where
  refl := Takes.refl
  trans := Fosters.trans
  still h := h.toKin.fosters
  tend _ f g h := World.Leaves.fosters fun ha => tend_leaves ha f g h
  untrack := Takes.untrack
  withOwner entry _ := Takes.withOwner entry
  inTeardown := Takes.inTeardown
  context o _ := Fosters.runInContext o
  externalFlush := Fosters.externalFlush
  drained := Fosters.drained

end Rules

section Teardown

variable {env : Enumeration} {c : Calls V} {w a : World V} {f : FrameId}

/-- All of a list come to their end, whatever panics on the way. -/
theorem captureAll_takes (q : Disposes c) (l : List Owned) :
    Act.Moves (Takes l) (captureAll c.dispose l) := by
  induction l with
  | nil => exact .pure Takes.refl none
  | cons o l ih =>
    intro w
    unfold captureAll Act.MovesAt Act.MovesFrom
    rw [Act.wp_bind, Act.wp_attempt]
    refine Act.wp_mono (q o w) (fun v t ht => ?_) (fun e t ht => ?_) id
    all_goals
      refine Act.MovesFrom.bind' ((ih t).mono fun _ => ht.cons) fun later u hu => ?_
      exact Act.MovesFrom.pure hu _

theorem tearDown_takes (m : Meets Fosters c) (q : Disposes c) (frame : OwnerFrame V) :
    Act.Moves (Takes frame.children) (tearDown c frame) := by
  have k := Fosters.carries (V := V) .insertion
  have hchildren : Act.Moves (Takes frame.children)
      (captureAll c.dispose frame.children.reverse) := by
    intro w
    refine Act.MovesFrom.mono (captureAll_takes q _ w) fun t ht ha => ?_
    obtain ⟨hleaves, hend⟩ := ht ha
    exact ⟨hleaves, fun o ho => hend o (List.mem_reverse.mpr ho)⟩
  refine Takes.untrack (Takes.withOwner none (Takes.inTeardown fun w => ?_))
  unfold Act.MovesAt Act.MovesFrom
  rw [Act.wp_bind]
  -- A panic of a cleanup is captured, so the children are always come to.
  have hcleanups := k.captureAll (k.execUnit m) frame.cleanups.reverse w
  have hquiet := Act.wp_of_ne_panic hcleanups fun p t => captureAll_ne_panic _ _ w t p
  refine Act.wp_mono hquiet (fun first t ht => ?_) (fun _ _ => False.elim) id
  refine Act.MovesFrom.bind' ((hchildren t).mono fun _ => Takes.trans ht) fun later u hu => ?_
  exact .pure hu _

/-- Nothing needs to be shown of a world that is not in order. -/
theorem of_fresh {T : World V → World V → Prop} {x : Run V α} (hv : ∀ b, ¬ w.Fresh → T w b)
    (h : w.Fresh → Act.MovesAt T x w) : Act.MovesAt T x w := by
  by_cases hw : w.Fresh
  · exact h hw
  · exact Act.wp_mono (Act.wp_true True trivial) (fun _ t _ => hv t hw) (fun _ t _ => hv t hw) id

theorem Takes.after {b d : World V} {L : List Owned} (h : a.Leaves L [] b) (h' : Takes L b d) :
    a.Leaves [] [] d := by
  obtain ⟨hbd, hend⟩ := h' h.fresh
  refine (h.trans hbd.weaken).made_good (fun o ho => ?_) fun e he => absurd he List.not_mem_nil
  exact ⟨.inl (kept_of_ended (hend o ho)), fun _ => kept_of_ended (hend o ho)⟩

theorem resetFrame_leaves (m : Meets Fosters c) (q : Disposes c) {y : OwnerFrame V}
    (hy : w.frames f = some y) (h : a.Leaves y.children [] w) :
    Act.MovesFrom (World.Leaves [] []) a (resetFrame c f) w := by
  refine .get_bind ?_
  simp only [hy]
  have hclear := h.trans (clear_leaves h.fresh hy)
  have htear := (tearDown_takes m q y _).mono fun _ => Takes.after hclear
  refine .after_modify (.bind' htear fun first t ht => ?_)
  split
  · exact .pure ht ()
  · refine .get_bind ?_
    split
    · exact .pure ht ()
    · exact .raise ht _

theorem resetFrame_fosters (m : Meets Fosters c) (q : Disposes c) (f : FrameId) :
    Act.Moves Fosters (resetFrame c f) := by
  refine fun w => of_fresh (fun _ hn ha => absurd ha hn) fun hw => ?_
  cases hy : w.frames f with
  | none =>
    refine .get_bind ?_
    simp only [hy]
    exact .stop
  | some y =>
    have hself : w.Leaves y.children [] w := (World.Leaves.refl hw).weaken
    exact (resetFrame_leaves m q hy hself).mono fun _ ht => World.Leaves.fosters fun _ => ht

theorem disposeFrame_takes (m : Meets Fosters c) (q : Disposes c) (f : FrameId) :
    Act.Moves (Takes [.scope f]) (disposeFrame c f) := by
  refine fun w => of_fresh (fun _ hn ha => absurd ha hn) fun hw => .get_bind ?_
  split
  · exact .stop
  · rename_i y hy
    split
    · rename_i hd
      have hend : w.Ended (.scope f) := ⟨y, hy, hd⟩
      exact .pure (Takes.single fun _ => ⟨.refl hw, hend⟩) ()
    · have hflag := flag_leaves hw hy
      have hy' := modifyFrame_frames f (fun frame => { frame with disposed := true }) hy
      rw [if_pos rfl] at hy'
      have hboth := Act.wp_and (resetFrame_leaves m q hy' hflag) (resetFrame_fosters m q f _)
      have hended : ∀ t, w.Leaves [] [] t ∧
          Fosters (w.modifyFrame f fun frame => { frame with disposed := true }) t →
          Takes [.scope f] w t := by
        intro t ht
        obtain ⟨hleaves, hfosters⟩ := ht
        -- What the flag says of the frame lasts to the end of the teardown.
        obtain ⟨hafter, _⟩ := hfosters hflag.fresh
        exact Takes.single fun _ => ⟨hleaves, hafter.lasts.ended ⟨_, hy', rfl⟩⟩
      exact .after_modify (Act.wp_mono hboth (fun _ => hended) (fun _ => hended) id)

theorem disposeEffect_takes (m : Meets Fosters c) (q : Disposes c) (e : NodeId) :
    Act.Moves (Takes [.effect e]) (disposeEffect c env e) := by
  refine fun w => of_fresh (fun _ hn ha => absurd ha hn) fun hw => .get_bind ?_
  split
  · exact .stop
  · rename_i x hx
    split
    · rename_i hd
      have hend : w.Ended (.effect e) := ⟨x, hx, hd⟩
      exact .pure (Takes.single fun _ => ⟨.refl hw, hend⟩) ()
    · have hclosing := closing_leaves hw e
      have hunhook : ∀ t, Takes [.scope x.owner] (w.closing e) t →
          Takes [.effect e] w (t.unhook env e) := by
        intro t ht
        have hlast : t.Still (t.unhook env e) := still_unhook t e
        obtain ⟨hrest, hend⟩ := ht.followed hlast.toKin.fosters hclosing.fresh
        have hclosed : (t.unhook env e).Closed e := hrest.lasts.closed (Keeps.closed_closing hx)
        have hshut : (t.unhook env e).Shut e := by
          intro y hy _
          obtain ⟨z, hz, howner, _⟩ := (hclosing.lasts.trans hrest.lasts).effects e x hx
          cases hy.symm.trans hz
          rw [howner]
          exact hend _ List.mem_cons_self
        refine Takes.single fun _ => ⟨(hclosing.trans hrest.weaken).made_good
          (fun o ho => absurd ho List.not_mem_nil) fun i hi => ?_, hclosed⟩
        cases List.mem_singleton.mp hi
        exact hshut
      refine .after_modify ?_
      unfold Act.MovesFrom
      rw [Act.wp_guarded]
      exact Act.wp_mono (disposeFrame_takes m q x.owner _) (fun _ => hunhook) (fun _ => hunhook) id

end Teardown

section Making

variable {env : Enumeration} {c : Calls V} {w : World V} {f : FrameId} {o : Owned}

/-- It is on the list of the current owner, or over at once. -/
theorem adoptIntoCurrent_brings (q : Disposes c) (ho : w.Has o)
    (hp : ∀ p, w.ownerOf o = some p → w.currentOwner = some p) :
    Act.MovesAt (Brings o) (adoptIntoCurrent c o) w := by
  refine of_fresh (fun _ hn ha => absurd ha hn) fun hw => .get_bind ?_
  split
  · rename_i hnone
    refine .pure (fun _ => ⟨.refl hw, fun p howner => ?_⟩) ()
    cases hnone.symm.trans (hp p howner)
  · rename_i f hf
    split
    · exact .stop
    · rename_i y hy
      split
      · exact Act.MovesFrom.mono (q o w) fun _ => Takes.brings
      · rename_i hd
        have hadopt := adopt_leaves hw f o
        refine .modify fun _ => ⟨hadopt, fun p howner => .inr (.inr ?_)⟩
        rw [hadopt.lasts.ownerOf hw ho] at howner
        cases hf.symm.trans (hp p howner)
        exact adopt_lists o hy (Bool.eq_false_of_not_eq_true hd)

theorem newEffect_fosters (q : Disposes c) (body : Body V) (external : Bool) :
    Act.Moves Fosters (newEffect c body external) := by
  refine fun w => of_fresh (fun _ hn ha => absurd ha hn) fun hw => .get_bind (.after_modify ?_)
  have hnew := newEffect_leaves hw body external
  have heffect : (w.newEffect body external).effects w.graph.nextNode =
      some { body, external, owner := w.nextFrame } := by
    rw [effects_newEffect, if_pos rfl]
  have hframe : (w.newEffect body external).frames w.nextFrame =
      some { parent := w.currentOwner } := Function.update_self ..
  have hdriven : (w.newEffect body external).Driven w.nextFrame := ⟨_, _, heffect, rfl⟩
  have hadopted : ∀ t, Brings (.effect w.graph.nextNode) (w.newEffect body external) t →
      Fosters w t := by
    intro t ht
    obtain ⟨hrest, hkept⟩ := ht hnew.fresh
    have hspared : t.Kept (.scope w.nextFrame) := kept_of_driven (hrest.lasts.driven hdriven)
    refine World.Leaves.fosters fun _ => (hnew.trans hrest.weaken).made_good (fun o ho => ?_)
      fun e he => absurd he List.not_mem_nil
    rcases List.mem_cons.mp ho with rfl | ho
    · exact ⟨.inl hkept, fun _ => hkept⟩
    · cases List.mem_singleton.mp ho
      exact ⟨.inl hspared, fun _ => hspared⟩
  have hadopt := adoptIntoCurrent_brings (o := .effect w.graph.nextNode) q
    (Option.isSome_iff_exists.mpr ⟨_, heffect⟩) fun p hp => by
      rw [ownerOf_effect heffect hframe] at hp
      exact hp
  refine .bind Fosters.trans (hadopt.mono hadopted) fun _ t _ => ?_
  exact .modify_bind Fosters.trans (still_scheduleEffect t _).toKin.fosters (.pure (Takes.refl _) _)

theorem dropFrame_holds (m : Meets Fosters c) (q : Disposes c) (hw : w.Fresh) (f : FrameId) :
    Act.MovesAt (fun a b => a.Leaves [] [] b ∧ b.Held (.scope f)) (dropFrame c f) w := by
  refine .get_bind ?_
  split
  · exact .stop
  · rename_i y hy
    split
    · rename_i hh
      exact .pure ⟨.refl hw, .inr ⟨f, rfl, y, hy, hh⟩⟩ ()
    · have hdropped := tend_leaves hw f (fun frame => { frame with dropped := true })
        fun x => ⟨rfl, rfl, rfl, id⟩
      have hbracket := Takes.bracket
        (w := w.modifyFrame f fun frame => { frame with dropped := true })
        (g := fun w => { w with panicking := true })
        (k := fun u => { u with panicking := w.panicking }) (.same rfl rfl rfl rfl)
        (fun _ => .same rfl rfl rfl rfl) (disposeFrame_takes m q f)
      refine .after_modify (hbracket.mono fun t ht => ?_)
      obtain ⟨hleaves, hend⟩ := Takes.trans (World.Leaves.fosters fun _ => hdropped) ht hw
      exact ⟨hleaves, .inl (kept_of_ended (hend _ List.mem_cons_self))⟩

/-- Where the body returns, its scope is kept, whatever handles there are. -/
theorem openScope_leaves (m : Meets Fosters c) (r : Meets Restores c) (q : Disposes c)
    (hw : w.Fresh) (handler : Option (Payload V → Prog V)) (body : Prog V) :
    (openScope c handler body).wp (fun a t => w.Leaves [] [] t ∧ t.Kept (.scope a.1))
      (fun _ t => w.Leaves [] [] t) True w := by
  have hnew := newFrame_leaves hw handler
  have hframe : (w.newFrame handler).frames w.nextFrame =
      some { parent := w.currentOwner, errorHandler := handler } := Function.update_self ..
  have hfresh : ¬ w.Has (.scope w.nextFrame) := by
    intro h
    unfold World.Has at h
    dsimp only at h
    rw [newFrame_fresh hw] at h
    cases h
  have hbody : Act.MovesAt (fun a b => Fosters a b ∧ Restores a b)
      (withOwner (some w.nextFrame) (c.exec body)) (w.newFrame handler) :=
    Act.wp_and (Takes.withOwner _ (m.exec body) _) (Restores.withOwner _ (r.exec body) _)
  change Act.wp (_ >>= _) _ _ True (w.newFrame handler)
  rw [Act.wp_bind, Act.wp_onUnwind]
  refine Act.wp_mono hbody (fun v t ht => ?_) (fun e t ht => ?_) id
  · obtain ⟨hfosters, hcells⟩ := ht
    obtain ⟨hrest, _⟩ := hfosters hnew.fresh
    -- Whoever was the owner when the frame was made is so again, and takes it.
    have howner : t.currentOwner = w.currentOwner := by
      have howners : t.owners = w.owners := congrArg Cells.owners hcells
      unfold World.currentOwner
      rw [howners]
    have hhas : (w.newFrame handler).Has (.scope w.nextFrame) :=
      Option.isSome_iff_exists.mpr ⟨_, hframe⟩
    have hadopt := adoptIntoCurrent_brings q (hrest.lasts.has hhas) fun p hp => by
      rw [hrest.lasts.ownerOf hnew.fresh hhas, ownerOf_scope hframe] at hp
      exact howner.trans hp
    have hgood : ∀ u, Brings (.scope w.nextFrame) t u → w.Leaves [] [] u ∧
        u.Kept (.scope w.nextFrame) := by
      intro u hu
      obtain ⟨hlast, hkept⟩ := hu hrest.fresh
      refine ⟨((hnew.trans hrest.weaken).trans hlast.weaken).made_good (fun o ho => ?_)
        (fun e he => absurd he List.not_mem_nil), hkept⟩
      cases List.mem_singleton.mp ho
      exact ⟨.inl hkept, fun h => absurd h hfresh⟩
    rw [Act.wp_bind]
    exact Act.wp_mono hadopt (fun _ u hu => hgood u hu) (fun _ u hu => (hgood u hu).1) id
  · obtain ⟨hfosters, _⟩ := ht
    obtain ⟨hrest, _⟩ := hfosters hnew.fresh
    have hgood : ∀ u, t.Leaves [] [] u ∧ u.Held (.scope w.nextFrame) → w.Leaves [] [] u := by
      intro u hu
      obtain ⟨hlast, hheld⟩ := hu
      refine ((hnew.trans hrest.weaken).trans hlast.weaken).made_good (fun o ho => ?_)
        fun e he => absurd he List.not_mem_nil
      cases List.mem_singleton.mp ho
      exact ⟨hheld, fun h => absurd h hfresh⟩
    exact (dropFrame_holds m q hrest.fresh w.nextFrame).mono hgood

theorem subscribed_fosters (q : Disposes c) (s : SubscriptionId) :
    Act.Moves Fosters (adoptIntoCurrent c (.subscription s)) := by
  intro w
  have hbrings := adoptIntoCurrent_brings (w := w) (o := .subscription s) q trivial fun p hp => by
    cases hp
  exact hbrings.mono fun t ht => World.Leaves.fosters fun ha => (ht ha).1

theorem Fosters.owning (m : Meets Fosters c) (r : Meets Restores c) (q : Disposes c) :
    Owning env Fosters c where
  openScope handler body _ := of_fresh (fun _ hn ha => absurd ha hn) fun hw =>
    Act.wp_mono (openScope_leaves m r q hw handler body)
      (fun _ _ ht => World.Leaves.fosters fun _ => ht.1)
      (fun _ _ ht => World.Leaves.fosters fun _ => ht) id
  newEffect := newEffect_fosters q
  subscribed := subscribed_fosters q
  reset := resetFrame_fosters m q
  disposeFrame f w := (disposeFrame_takes m q f w).mono fun _ => Takes.fosters
  disposeEffect e w := (disposeEffect_takes m q e w).mono fun _ => Takes.fosters

theorem disposeOwned_takes (m : Meets Fosters c) (q : Disposes c) (o : Owned) :
    Act.Moves (Takes [o]) (disposeOwned c env o) := by
  cases o with
  | effect e => exact disposeEffect_takes m q e
  | scope f => exact disposeFrame_takes m q f
  | subscription s =>
    intro w
    exact ((Fosters.carries env).unsubscribe m s w).mono fun t ht =>
      Takes.single fun ha => ⟨(ht ha).1, trivial⟩

theorem fosters_calls (env : Enumeration) (depth : ℕ) :
    Meets Fosters (calls env depth : Calls V) ∧ Disposes (calls env depth : Calls V) :=
  (Fosters.carries env).calls (fun _ _ => .stop) (fun depth m q =>
    ⟨Fosters.owning m (Restores.calls env depth) q, disposeOwned_takes m q⟩) depth

end Making

def CallsTo (env : Enumeration) (a b : World V) : Prop :=
  ∃ depth p, (∃ v, exec env depth p a = .ok v b) ∨ ∃ e, exec env depth p a = .panic e b

/-- `g` was made under `p`. A scope whose body unwound is not handed over while a handle holds
its frame. -/
def World.Under (w : World V) (p g : FrameId) : Prop :=
  ∃ y, w.frames g = some y ∧ y.parent = some p ∧
    (y.handled = true → w.Driven g ∨ w.Lists p (.scope g))

section Hosts

variable {env : Enumeration} {a b : World V} {p f g : FrameId}

theorem leaves_callsTo (ha : a.Fresh) (h : CallsTo env a b) : a.Leaves [] [] b := by
  obtain ⟨depth, p, h⟩ := h
  have hmoves := (fosters_calls env depth).1.exec p a
  rcases h with ⟨v, h⟩ | ⟨e, h⟩
  · exact (hmoves.ok h ha).1
  · exact (hmoves.panic h ha).1

theorem leaves_host (ha : a.Fresh) (h : Relation.ReflTransGen (CallsTo env) a b) :
    a.Leaves [] [] b := by
  induction h with
  | refl => exact .refl ha
  | tail _ hs ih => exact ih.trans (leaves_callsTo ih.fresh hs)

theorem leaves_start (h : Relation.ReflTransGen (CallsTo env) {} a) :
    ({} : World V).Leaves [] [] a :=
  leaves_host ⟨fun _ _ => nofun, fun _ _ => nofun⟩ h

theorem held_host (h : Relation.ReflTransGen (CallsTo env) {} a) (o : Owned) : a.Held o := by
  refine (leaves_start h).held o List.not_mem_nil (.inl fun p hp => ?_)
  cases o <;> cases hp

theorem shut_host (h : Relation.ReflTransGen (CallsTo env) {} a) (e : NodeId) : a.Shut e :=
  (leaves_start h).shut e List.not_mem_nil fun _ hx => nomatch hx

theorem not_lists {o : Owned} (hp : b.Ended (.scope p)) : ¬ b.Lists p o := by
  rintro ⟨y, hy, hd, _⟩
  obtain ⟨x, hx, hd'⟩ := hp
  cases hy.symm.trans hx
  cases hd.symm.trans hd'

theorem effect_host (h : Relation.ReflTransGen (CallsTo env) {} a) {e : NodeId} :
    a.Kept (.effect e) := by
  rcases held_host h (.effect e) with hkept | ⟨f, hf, _⟩
  · exact hkept
  · cases hf

theorem closed_of_owner (hb : Relation.ReflTransGen (CallsTo env) {} b) (hp : b.Ended (.scope p))
    {y : OwnerFrame V} (hy : b.frames g = some y) (hparent : y.parent = some p) {e : NodeId}
    {x : EffectInner V} (hx : b.effects e = some x) (hg : x.owner = g) : b.Closed e := by
  have howner : b.ownerOf (.effect e) = some p := by
    rw [ownerOf_effect hx (hg ▸ hy), hparent]
  rcases effect_host hb p howner with hend | hspare | hlist
  · exact hend
  · exact hspare.elim
  · exact absurd hlist (not_lists hp)

theorem ended_under (ha : Relation.ReflTransGen (CallsTo env) {} a)
    (hb : Relation.ReflTransGen (CallsTo env) a b) (hp : b.Ended (.scope p)) (hg : a.Under p g) :
    b.Ended (.scope g) ∧ ∀ e x, b.effects e = some x → x.owner = g → x.disposed = true := by
  have hall := ha.trans hb
  have hleaves := leaves_host (leaves_start ha).fresh hb
  obtain ⟨y, hy, hparent, hhandled⟩ := hg
  obtain ⟨y', hy', hparent', _⟩ := hleaves.lasts.frames g y hy
  have hclosed : ∀ e x, b.effects e = some x → x.owner = g → b.Closed e :=
    fun e x => closed_of_owner hall hp hy' (hparent'.trans hparent)
  refine ⟨?_, fun e x hx ho => ?_⟩
  · have hkept : a.Kept (.scope g) := by
      rcases held_host ha (.scope g) with hkept | ⟨i, hi, z, hz, hh⟩
      · exact hkept
      · cases hi
        cases hy.symm.trans hz
        exact fun q hq => (hhandled hh).elim (fun h => .inr (.inl h)) fun h => by
          rw [ownerOf_scope hy, hparent] at hq
          cases hq
          exact .inr (.inr h)
    have hhas : a.Has (.scope g) := Option.isSome_iff_exists.mpr ⟨y, hy⟩
    have howner : b.ownerOf (.scope g) = some p := by
      rw [ownerOf_scope hy', hparent', hparent]
    rcases hleaves.kept _ List.not_mem_nil hhas hkept p howner with hend | hdriven | hlist
    · exact hend
    · -- Nobody lists the frame of an effect; the effect itself is reached.
      obtain ⟨e, x, hx, ho⟩ := hdriven
      obtain ⟨x', hx', hd⟩ := hclosed e x hx ho
      cases hx.symm.trans hx'
      exact ho ▸ shut_host hall e x hx hd
    · exact absurd hlist (not_lists hp)
  · obtain ⟨x', hx', hd⟩ := hclosed e x hx ho
    cases hx.symm.trans hx'
    exact hd

end Hosts

/-- Between the calls of a host, whatever they and the code called back do, and whatever panics on
the way: an effect that was made under an owner is disposed with its frame, or on the list of that
owner, who is not disposed; and once an owner is disposed, so is everything that was made under it,
at any depth, but a scope whose body unwound while a handle held its frame. -/
theorem disposal_reaches_the_subtree {env : Enumeration} {a b : World V}
    (ha : Relation.ReflTransGen (CallsTo env) {} a) (hb : Relation.ReflTransGen (CallsTo env) a b) :
    (∀ e x p, b.effects e = some x → b.ownerOf (.effect e) = some p →
      x.disposed = true ∧ b.Ended (.scope x.owner) ∨ b.Lists p (.effect e)) ∧
    (∀ f g, b.Ended (.scope f) → Relation.TransGen a.Under f g →
      b.Ended (.scope g) ∧ ∀ e x, b.effects e = some x → x.owner = g → x.disposed = true) := by
  have hall := ha.trans hb
  refine ⟨fun e x p hx hp => ?_, fun f g hf hg => ?_⟩
  · rcases effect_host hall p hp with ⟨y, hy, hd⟩ | hspare | hlist
    · cases hx.symm.trans hy
      exact .inl ⟨hd, shut_host hall e x hx hd⟩
    · exact hspare.elim
    · exact .inr hlist
  · induction hg with
    | single h => exact ended_under ha hb hf h
    | tail _ h ih => exact ended_under ha hb ih.1 h

/-- A scope in a scope, with an effect, and with a cleanup that panics. -/
def nestedScopes : Prog ℕ :=
  .call .scope (fun _ => .call .scope (fun _ =>
    Prog.onCleanup (.panic 2) (.call .effect (fun _ => .ret 0) fun _ => .ret 0)) fun r => .ret r.2)
    fun r => .ret r.2

def disposeOutermost : Prog ℕ := .call (.disposeScope 0) nofun fun _ => .ret 0

theorem panicking_cleanup_spares_no_scope : ∃ a b : World ℕ,
    exec .insertion 8 nestedScopes {} = .ok 0 a ∧
    exec .insertion 8 disposeOutermost a = .panic (.user 2) b ∧ b.Ended (.scope 2) :=
  ⟨_, _, rfl, rfl, ((disposal_reaches_the_subtree (.single ⟨8, nestedScopes, .inl ⟨_, rfl⟩⟩)
    (.single ⟨8, disposeOutermost, .inr ⟨_, rfl⟩⟩)).2 0 2 ⟨_, rfl, rfl⟩
    (.tail (.single ⟨_, rfl, rfl, fun h => absurd h Bool.false_ne_true⟩)
      ⟨_, rfl, rfl, fun h => absurd h Bool.false_ne_true⟩)).1⟩

end Adaptite
