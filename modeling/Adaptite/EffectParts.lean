import Adaptite.EffectHost

set_option autoImplicit false

namespace Adaptite

namespace RunFrame

def isHandling : RunFrame → Bool
  | coalescing | handing | scheduling _ => true
  | _ => false

/-- A flush that is opened, by `run` if it is the run of one effect, or closed, or a report that
belongs to no effect. -/
def isBeside (run : Option NodeId) : RunFrame → Bool
  | flushOpening | draining _ | flushClosing _ _ | external | externalClosing _ _ | skipping => true
  | externalOpening i => i = run
  | _ => false

end RunFrame

namespace EffectHost

variable {T : EffectHost → EffectHost → Prop} {s t : EffectHost} {run : Option NodeId}

/-- `T` allows what `schedule` does: it calls out, latches, and hands the run over. -/
structure Handling (T : EffectHost → EffectHost → Prop) : Prop where
  refl : ∀ s, T s s
  trans : ∀ {s t u}, T s t → T t u → T s u
  call : ∀ s f, f.isHandling = true → T s (s.push f)
  latch : ∀ s e, T s (s.latch e)
  lane : ∀ s e x, s.effects e = some x → x.external = true → T s { s with lane := s.lane ++ [e] }
  job : ∀ s e, T s { s with flush := s.flush.schedule (.run e) }

theorem Handling.handOver (k : Handling T) (s : EffectHost) (e : NodeId) : T s (s.handOver e) := by
  unfold EffectHost.handOver
  cases hx : s.effects e with
  | none => exact k.refl s
  | some x =>
    dsimp only
    split
    · rename_i hext
      exact k.trans (k.lane s e x hx hext) (k.call _ _ rfl)
    · exact k.job s e

theorem Handling.schedule (k : Handling T) (s : EffectHost) (e : NodeId) : T s (s.schedule e) := by
  unfold EffectHost.schedule
  split
  · exact k.refl s
  · split
    · split
      · exact k.call s _ rfl
      · exact k.refl s
    · split
      · exact k.trans (k.latch s e) (k.call _ _ rfl)
      · exact k.trans (k.latch s e) (k.handOver _ e)

/-- No effect is touched and nothing is taken from a queue; one call may be made that has to do
with no effect, apart from `run`. -/
structure Beside (run : Option NodeId) (s t : EffectHost) : Prop where
  nextNode : t.nextNode = s.nextNode
  queuedEffects : t.queuedEffects = s.queuedEffects
  effects : t.effects = s.effects
  lane : t.lane = s.lane
  jobs : t.flush.pendingJobs = s.flush.pendingJobs
  stack : t.stack = s.stack ∨ ∃ f, f.isBeside run = true ∧ t.stack = f :: s.stack

theorem fresh_same (s : EffectHost) : s.fresh.nextNode = s.nextNode ∧
    s.fresh.queuedEffects = s.queuedEffects ∧ s.fresh.effects = s.effects ∧
    s.fresh.lane = s.lane := by
  unfold fresh
  split <;> exact ⟨rfl, rfl, rfl, rfl⟩

theorem pendingJobs_beginFlush {J : Type} (f : Flush J) :
    f.beginFlush.1.pendingJobs = f.pendingJobs := by
  unfold Flush.beginFlush
  split <;> rfl

theorem pendingJobs_rearm {J : Type} (f : Flush J) : f.rearm.pendingJobs = f.pendingJobs := by
  unfold Flush.rearm
  split
  · rfl
  · rw [(Flush.ensureFlushScheduled_queue _).1]

theorem beside_skip (s : EffectHost) : Beside none s s.skip := by
  unfold skip
  split
  · exact ⟨rfl, rfl, rfl, rfl, rfl, .inr ⟨_, rfl, rfl⟩⟩
  · exact ⟨rfl, rfl, rfl, rfl, rfl, .inl rfl⟩

theorem beside_flushJobs (s : EffectHost) : Beside none s s.flushJobs := by
  obtain ⟨h1, h2, h3, h4⟩ := fresh_same s
  unfold flushJobs
  split
  · exact ⟨rfl, rfl, rfl, rfl, rfl, .inl rfl⟩
  · split
    · exact ⟨h1, h2, h3, h4, rfl, .inr ⟨_, rfl, rfl⟩⟩
    · exact ⟨h1, h2, h3, h4, rfl, .inr ⟨_, rfl, rfl⟩⟩

theorem beside_beginFlush (s : EffectHost) (run : Option NodeId) :
    Beside run s (s.beginFlush run) := by
  obtain ⟨h1, h2, h3, h4⟩ := fresh_same s
  have hjobs := pendingJobs_beginFlush s.flush
  unfold beginFlush
  split
  · exact ⟨h1, h2, h3, h4, hjobs, .inr ⟨.externalOpening run, decide_eq_true rfl, rfl⟩⟩
  · exact ⟨h1, h2, h3, h4, hjobs, .inr ⟨_, rfl, rfl⟩⟩

theorem beside_endFlush (s : EffectHost) (rest : List RunFrame) (unwound : Bool) :
    Beside none { s with stack := rest } (s.endFlush rest unwound) := by
  unfold endFlush
  split
  · exact ⟨rfl, rfl, rfl, rfl, rfl, .inr ⟨_, rfl, rfl⟩⟩
  · exact ⟨rfl, rfl, rfl, rfl, rfl, .inl rfl⟩

theorem beside_closeDrain (s : EffectHost) (rest : List RunFrame) (unwound : Bool) :
    Beside none { s with stack := rest } (s.closeDrain rest unwound) := by
  unfold closeDrain
  split
  · exact ⟨rfl, rfl, rfl, rfl, rfl, .inr ⟨_, rfl, rfl⟩⟩
  · exact ⟨rfl, rfl, rfl, rfl, pendingJobs_rearm _, .inl rfl⟩

end EffectHost

end Adaptite
