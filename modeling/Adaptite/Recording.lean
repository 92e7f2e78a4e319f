import Adaptite.Tracking
import Adaptite.WellFormed

set_option autoImplicit false

namespace Adaptite

variable {env : Enumeration}

def TrackCall.inside : TrackCall → Context → Context
  | computing n _, entry => ⟨n :: entry.stack, n :: entry.activeComputations, 0⟩
  | untracking, entry => { entry with untracked := entry.untracked + 1 }
  | reading _ _, entry | accepting _, entry => entry

namespace TrackHost

/-- A context with the calls that lead to it, innermost first. -/
inductive Nested : Context → List TrackFrame → Prop where
  | nil : Nested {} []
  | cons {entry : Context} {rest : List TrackFrame} (call : TrackCall) (outer : Nested entry rest)
      (saved : ∀ n u, call = .computing n u → u = entry.untracked) :
      Nested (call.inside entry) (⟨call, entry⟩ :: rest)

theorem Nested.split {c : Context} {f : TrackFrame} {rest : List TrackFrame}
    (h : Nested c (f :: rest)) : c = f.call.inside f.entry ∧ Nested f.entry rest ∧
      ∀ n u, f.call = .computing n u → u = f.entry.untracked := by
  cases h with
  | cons call outer saved => exact ⟨rfl, outer, saved⟩

theorem Nested.reader {c : Context} {frames : List TrackFrame} (h : Nested c frames) :
    reader frames = if 0 < c.untracked then none else c.stack.head? := by
  induction h with
  | nil => rfl
  | cons call _ _ ih =>
    cases call with
    | reading n tracked => exact ih
    | computing n u => rfl
    | accepting n => exact ih
    | untracking => exact (if_pos (Nat.succ_pos _)).symm

/-- The edges of `n` are what it has read, where that is still alive. -/
def Exact (s : TrackHost) (n : NodeId) : Prop :=
  ∀ d v, (s.graph.edgesOf n).lookup d = some v ↔
    d ∈ s.graph.nodeMeta ∧ (s.reads n).lookup d = some v

def ComputedNode (g : Graph) (n : NodeId) : Prop :=
  ∃ kind, g.nodeKind n = some kind ∧ kind.isComputed = true

structure Sound (s : TrackHost) : Prop where
  consistent : s.graph.Consistent
  nested : Nested s.context s.frames
  running : ∀ o ∈ s.graph.stack, o < s.graph.nextNode
  fresh : ∀ o, s.graph.nextNode ≤ o → s.graph.edgesOf o = ∅ ∧ s.reads o = []
  known : ∀ o d v, (s.reads o).lookup d = some v → d < s.graph.nextNode
  held : ∀ f ∈ s.frames, ∀ n tracked, f.call = .reading n tracked → ComputedNode s.graph n
  exact : ∀ n ∈ s.graph.nodeMeta, s.Exact n

variable {s t : TrackHost}

theorem sound_empty : ({} : TrackHost).Sound := by
  refine ⟨Graph.consistent_empty, .nil, ?_, ?_, ?_, ?_, ?_⟩
  · intro o ho
    cases ho
  · intro o _
    exact ⟨rfl, rfl⟩
  · intro o d v hv
    cases hv
  · intro f hf
    cases hf
  · intro n hn
    cases hn

theorem mem_iff_of_sameNodes {g g' : Graph} (h : g.SameNodes g') (d : NodeId) :
    d ∈ g'.nodeMeta ↔ d ∈ g.nodeMeta := by
  have hkind := congrArg Option.isSome (h.kinds d)
  unfold Graph.nodeKind at hkind
  rw [Option.isSome_map, Option.isSome_map] at hkind
  rw [← AList.lookup_isSome, ← AList.lookup_isSome, hkind]

namespace Sound

theorem reader (h : s.Sound) :
    reader s.frames = if 0 < s.untracked then none else s.graph.stack.head? := h.nested.reader

/-- A step that moves neither an edge nor a read keeps what is recorded. -/
theorem renew (h : s.Sound) (consistent : t.graph.Consistent) (nodes : s.graph.SameNodes t.graph)
    (nested : Nested t.context t.frames) (stack : ∀ o ∈ t.graph.stack, o ∈ s.graph.stack)
    (edges : ∀ o, t.graph.edgesOf o = s.graph.edgesOf o) (reads : t.reads = s.reads)
    (held : ∀ f ∈ t.frames, ∀ n tracked, f.call = .reading n tracked → ComputedNode s.graph n) :
    t.Sound := by
  have hmem := mem_iff_of_sameNodes nodes
  refine ⟨consistent, nested, ?_, ?_, ?_, ?_, ?_⟩
  · intro o ho
    rw [nodes.nextNode]
    exact h.running o (stack o ho)
  · intro o ho
    rw [nodes.nextNode] at ho
    rw [edges, reads]
    exact h.fresh o ho
  · rw [nodes.nextNode, reads]
    exact h.known
  · intro f hf n tracked hc
    unfold ComputedNode
    rw [nodes.kinds]
    exact held f hf n tracked hc
  · intro n hn d v
    rw [edges, hmem, reads]
    exact h.exact n ((hmem n).mp hn) d v

theorem push (h : s.Sound) (call : TrackCall) (same : call.inside s.context = s.context)
    (saved : ∀ n u, call = .computing n u → u = s.untracked)
    (held : ∀ n tracked, call = .reading n tracked → ComputedNode s.graph n) :
    (s.push call s.context).Sound := by
  refine h.renew h.consistent (.of_eq rfl rfl rfl) ?_ (fun o ho => ho) (fun o => rfl) rfl ?_
  · have hn := Nested.cons call h.nested saved
    rw [same] at hn
    exact hn
  · intro f hf n tracked hc
    rcases List.mem_cons.mp hf with rfl | hf
    · exact held n tracked hc
    · exact h.held f hf n tracked hc

theorem bump (h : s.Sound) (n : NodeId) :
    ({ s with graph := s.graph.bumpVersion n } : TrackHost).Sound := by
  refine h.renew (h.consistent.bumpVersion n) (Graph.sameNodes_bumpVersion _ n) ?_ ?_ ?_ rfl h.held
  · have hc : ({ s with graph := s.graph.bumpVersion n } : TrackHost).context = s.context := by
      simp [context]
    rw [hc]
    exact h.nested
  · intro o ho
    simpa using ho
  · intro o
    simp

theorem untrack (h : s.Sound) :
    (({ s with untracked := s.untracked + 1 } : TrackHost).push .untracking s.context).Sound := by
  refine h.renew h.consistent (.of_eq rfl rfl rfl) ?_ (fun o ho => ho) (fun o => rfl) rfl ?_
  · refine Nested.cons .untracking h.nested ?_
    intro n u hc
    cases hc
  · intro f hf n tracked hc
    rcases List.mem_cons.mp hf with rfl | hf
    · cases hc
    · exact h.held f hf n tracked hc

theorem dropGuards (h : s.Sound) {f : TrackFrame} {rest : List TrackFrame}
    (hf : s.frames = f :: rest) :
    (({ s with frames := rest } : TrackHost).dropGuards f.call).Sound ∧
    (({ s with frames := rest } : TrackHost).dropGuards f.call).context = f.entry ∧
    (({ s with frames := rest } : TrackHost).dropGuards f.call).frames = rest := by
  obtain ⟨call, entry⟩ := f
  have hnested := h.nested
  rw [hf] at hnested
  obtain ⟨hin, houter, hsaved⟩ := hnested.split
  have hheld : ∀ f ∈ rest, ∀ n tracked, f.call = .reading n tracked → ComputedNode s.graph n := by
    intro f hmem n tracked hc
    exact h.held f (by rw [hf]; exact List.mem_cons_of_mem _ hmem) n tracked hc
  cases call with
  | reading n tracked | accepting n =>
    refine ⟨?_, hin, rfl⟩
    have hsame : s.context = entry := hin
    refine h.renew h.consistent (.of_eq rfl rfl rfl) ?_ (fun o ho => ho) (fun o => rfl) rfl hheld
    change Nested s.context rest
    rw [hsame]
    exact houter
  | untracking =>
    have hdepth : s.untracked = entry.untracked + 1 := congrArg Context.untracked hin
    have hcontext : (({ s with frames := rest } : TrackHost).dropGuards .untracking).context =
        entry := by
      change Context.mk s.graph.stack s.graph.activeComputations (s.untracked - 1) = entry
      rw [hdepth]
      obtain ⟨hstack, hactive⟩ :
          s.graph.stack = entry.stack ∧ s.graph.activeComputations = entry.activeComputations :=
        ⟨congrArg Context.stack hin, congrArg Context.activeComputations hin⟩
      rw [hstack, hactive]
      rfl
    refine ⟨?_, hcontext, rfl⟩
    refine h.renew h.consistent (.of_eq rfl rfl rfl) ?_ (fun o ho => ho) (fun o => rfl) rfl hheld
    rw [hcontext]
    exact houter
  | computing n u =>
    have hstack : s.graph.stack = n :: entry.stack := congrArg Context.stack hin
    have hactive : s.graph.activeComputations = n :: entry.activeComputations :=
      congrArg Context.activeComputations hin
    have hexit := Graph.exitContext_of_stack hstack
    rw [hactive, List.erase_cons_head] at hexit
    have hcontext : (({ s with frames := rest } : TrackHost).dropGuards (.computing n u)).context =
        entry := by
      change Context.mk s.graph.exitContext.stack s.graph.exitContext.activeComputations u = entry
      rw [hexit, hsaved n u rfl]
    refine ⟨?_, hcontext, rfl⟩
    refine h.renew h.consistent.exitContext Graph.sameNodes_exitContext ?_ ?_ ?_ rfl hheld
    · rw [hcontext]
      exact houter
    · intro o ho
      change o ∈ s.graph.exitContext.stack at ho
      rw [hexit] at ho
      rw [hstack]
      exact List.mem_cons_of_mem _ ho
    · intro o
      change s.graph.exitContext.edgesOf o = _
      rw [hexit]
      rfl

theorem create (h : s.Sound) (kind : NodeKind) (observers : IdSet) :
    ({ s with graph := { s.graph.allocateNode kind with observers } } : TrackHost).Sound := by
  have hkind : ∀ d, (s.graph.allocateNode kind).nodeKind d =
      if d = s.graph.nextNode then some kind else s.graph.nodeKind d :=
    Graph.nodeKind_allocateNode s.graph kind
  have hnew : s.graph.nextNode ∉ s.graph.nodeMeta := by
    intro hmem
    exact Nat.lt_irrefl _ (h.consistent.below _ hmem)
  refine ⟨(h.consistent.allocateNode kind).withObservers observers, h.nested, ?_, ?_, ?_, ?_, ?_⟩
  · intro o ho
    exact Nat.lt_succ_of_lt (h.running o ho)
  · intro o ho
    exact h.fresh o (Nat.le_of_succ_le ho)
  · intro o d v hv
    exact Nat.lt_succ_of_lt (h.known o d v hv)
  · intro f hf n tracked hc
    obtain ⟨k, hk, hcomputed⟩ := h.held f hf n tracked hc
    refine ⟨k, ?_, hcomputed⟩
    change (s.graph.allocateNode kind).nodeKind n = some k
    rw [hkind, if_neg ?_]
    · exact hk
    · rintro rfl
      exact hnew (Graph.mem_of_nodeKind hk)
  · intro n hn d v
    change (s.graph.edgesOf n).lookup d = some v ↔
      d ∈ (s.graph.allocateNode kind).nodeMeta ∧ (s.reads n).lookup d = some v
    change n ∈ s.graph.nodeMeta.insert _ _ at hn
    change _ ↔ d ∈ s.graph.nodeMeta.insert _ _ ∧ _
    rw [AList.mem_insert] at hn ⊢
    rcases hn with rfl | hn
    · obtain ⟨hedges, hreads⟩ := h.fresh _ (Nat.le_refl _)
      rw [hedges, hreads]
      simp
    · rw [h.exact n hn d v]
      refine and_congr_left fun hread => (or_iff_right ?_).symm
      rintro rfl
      exact Nat.lt_irrefl _ (h.known n _ v hread)

theorem enter (h : s.Sound) {n : NodeId} (hn : n ∈ s.graph.nodeMeta)
    (idle : n ∉ s.graph.activeComputations) : (s.enter env n).Sound := by
  obtain ⟨hmeta, _, hstack, hactive, hnext⟩ := Graph.enterContext_frame env s.graph n
  have hedges := Graph.edgesOf_enterContext env s.graph n
  refine ⟨h.consistent.enterContext n idle, ?_, ?_, ?_, ?_, ?_, ?_⟩
  · have hc : (s.enter env n).context = TrackCall.inside (.computing n s.untracked) s.context := by
      change Context.mk _ _ _ = _
      rw [TrackHost.enter, TrackHost.push, hstack, hactive]
      rfl
    rw [hc]
    refine Nested.cons _ h.nested ?_
    intro m u hcall
    cases hcall
    rfl
  · intro o ho
    change o ∈ (s.graph.enterContext env n).1.stack at ho
    change o < (s.graph.enterContext env n).1.nextNode
    rw [hstack] at ho
    rw [hnext]
    rcases List.mem_cons.mp ho with rfl | ho
    · exact h.consistent.below _ hn
    · exact h.running o ho
  · intro o ho
    change (s.graph.enterContext env n).1.nextNode ≤ o at ho
    rw [hnext] at ho
    have hne : o ≠ n := by
      rintro rfl
      exact Nat.lt_irrefl _ (Nat.lt_of_lt_of_le (h.consistent.below _ hn) ho)
    change (s.graph.enterContext env n).1.edgesOf o = ∅ ∧ Function.update s.reads n [] o = []
    rw [hedges, if_neg hne, Function.update_of_ne hne]
    exact h.fresh o ho
  · intro o d v hv
    change d < (s.graph.enterContext env n).1.nextNode
    rw [hnext]
    change (Function.update s.reads n [] o).lookup d = some v at hv
    by_cases ho : o = n
    · subst ho
      rw [Function.update_self] at hv
      cases hv
    · rw [Function.update_of_ne ho] at hv
      exact h.known o d v hv
  · intro f hf m tracked hc
    unfold ComputedNode
    change ∃ kind, (s.graph.enterContext env n).1.nodeKind m = some kind ∧ _
    rw [(Graph.sameNodes_enterContext n).kinds]
    rcases List.mem_cons.mp hf with rfl | hf
    · cases hc
    · exact h.held f hf m tracked hc
  · intro m hm d v
    change ((s.graph.enterContext env n).1.edgesOf m).lookup d = some v ↔
      d ∈ (s.graph.enterContext env n).1.nodeMeta ∧
        (Function.update s.reads n [] m).lookup d = some v
    change m ∈ (s.graph.enterContext env n).1.nodeMeta at hm
    rw [hmeta] at hm ⊢
    rw [hedges]
    by_cases hmn : m = n
    · subst hmn
      rw [if_pos rfl, Function.update_self]
      simp
    · rw [if_neg hmn, Function.update_of_ne hmn]
      exact h.exact m hm d v

theorem record (h : s.Sound) {o : NodeId} {rest : List NodeId} (hs : s.graph.stack = o :: rest)
    {n : NodeId} (hn : n ∈ s.graph.nodeMeta) (other : o ≠ n) :
    ({ s with
        graph := (s.graph.recordEdge o n).1
        reads := Function.update s.reads o ((n, s.graph.version n) :: s.reads o) } :
      TrackHost).Sound := by
  have hedges := fun m => Graph.edgesOf_recordEdge s.graph o m n
  have ho : o < s.graph.nextNode := h.running o (by rw [hs]; exact List.mem_cons_self)
  refine ⟨h.consistent.recordEdge o n other, h.nested, h.running, ?_, ?_, h.held, ?_⟩
  · intro m hm
    have hne : m ≠ o := Nat.ne_of_gt (Nat.lt_of_lt_of_le ho hm)
    change (s.graph.recordEdge o n).1.edgesOf m = ∅ ∧ Function.update s.reads o _ m = []
    rw [hedges, if_neg hne, Function.update_of_ne hne]
    exact h.fresh m hm
  · intro m d v hv
    change (Function.update s.reads o _ m).lookup d = some v at hv
    by_cases hm : m = o
    · subst hm
      rw [Function.update_self, List.lookup_cons] at hv
      split at hv
      · rename_i heq
        rw [beq_iff_eq] at heq
        rw [heq]
        exact h.consistent.below n hn
      · exact h.known m d v hv
    · rw [Function.update_of_ne hm] at hv
      exact h.known m d v hv
  · intro m hm d v
    change ((s.graph.recordEdge o n).1.edgesOf m).lookup d = some v ↔
      d ∈ s.graph.nodeMeta ∧ (Function.update s.reads o _ m).lookup d = some v
    rw [hedges]
    by_cases hmo : m = o
    · subst hmo
      rw [if_pos rfl, Function.update_self, List.lookup_cons]
      by_cases hd : d = n
      · subst hd
        simp [hn]
      · have hne : (d == n) = false := by simpa using hd
        rw [AList.lookup_insert_ne hd, hne]
        exact h.exact m hm d v
    · rw [if_neg hmo, Function.update_of_ne hmo]
      exact h.exact m hm d v

theorem observe (h : s.Sound) {n : NodeId} (hn : n ∈ s.graph.nodeMeta) :
    (s.observe n).Sound ∧ (s.observe n).context = s.context := by
  have hreader := h.reader
  unfold TrackHost.observe TrackHost.noteRead Graph.tryObserve Graph.cycleCheck
  by_cases hactive : n ∈ s.graph.activeComputations
  · simp only [hactive, if_true]
    exact ⟨h, trivial⟩
  · simp only [hactive, if_false]
    by_cases hu : 0 < s.untracked
    · rw [if_pos hu] at hreader
      simp only [hu, hreader, decide_true, if_true]
      exact ⟨h, trivial⟩
    · rw [if_neg hu] at hreader
      cases hs : s.graph.stack with
      | nil =>
        rw [hs] at hreader
        simp only [hu, hreader, List.head?_nil, decide_false, Bool.false_eq_true, if_false]
        exact ⟨h, trivial⟩
      | cons o rest =>
        rw [hs] at hreader
        have hother : o ≠ n := by
          rintro rfl
          rw [h.consistent.running, hs] at hactive
          exact hactive List.mem_cons_self
        simp only [hu, hreader, List.head?_cons, decide_false, Bool.false_eq_true, if_false]
        exact ⟨h.record hs hn hother, rfl⟩

theorem dispose (h : s.Sound) {n : NodeId} (free : s.disposable n = true) :
    ({ s with graph := (s.graph.dispose env n).1 } : TrackHost).Sound := by
  obtain ⟨hmeta, _, hstack, hactive, hnext⟩ := Graph.dispose_frame env s.graph n
  have hedges := Graph.edgesOf_dispose env s.graph n
  refine ⟨h.consistent.dispose n, ?_, ?_, ?_, ?_, ?_, ?_⟩
  · change Nested (Context.mk (s.graph.dispose env n).1.stack
      (s.graph.dispose env n).1.activeComputations s.untracked) s.frames
    rw [hstack, hactive]
    exact h.nested
  · intro o ho
    change o ∈ (s.graph.dispose env n).1.stack at ho
    change o < (s.graph.dispose env n).1.nextNode
    rw [hstack] at ho
    rw [hnext]
    exact h.running o ho
  · intro o ho
    change (s.graph.dispose env n).1.nextNode ≤ o at ho
    rw [hnext] at ho
    obtain ⟨hempty, hreads⟩ := h.fresh o ho
    refine ⟨?_, hreads⟩
    change (s.graph.dispose env n).1.edgesOf o = ∅
    rw [hedges, hempty]
    split
    · rfl
    · split <;> exact AList.ext rfl
  · intro o d v hv
    change d < (s.graph.dispose env n).1.nextNode
    rw [hnext]
    exact h.known o d v hv
  · intro f hf m tracked hc
    obtain ⟨kind, hkind, hcomputed⟩ := h.held f hf m tracked hc
    have hne : m ≠ n := by
      rintro rfl
      unfold disposable at free
      rw [Bool.or_eq_true, List.all_eq_true] at free
      rcases free with heff | hfree
      · rw [hkind] at heff
        cases kind <;> simp [NodeKind.isComputed] at heff hcomputed
      · have hnode := hfree f hf
        rw [hc] at hnode
        simp [TrackCall.node] at hnode
    refine ⟨kind, ?_, hcomputed⟩
    change (s.graph.dispose env n).1.nodeKind m = some kind
    rw [Graph.nodeKind_dispose, if_neg hne]
    exact hkind
  · intro m hm d v
    change m ∈ (s.graph.dispose env n).1.nodeMeta at hm
    change ((s.graph.dispose env n).1.edgesOf m).lookup d = some v ↔
      d ∈ (s.graph.dispose env n).1.nodeMeta ∧ (s.reads m).lookup d = some v
    rw [hmeta, AList.mem_erase] at hm ⊢
    have hbefore := h.exact m hm.2 d v
    rw [hedges, if_neg hm.1]
    by_cases hd : d = n
    · subst hd
      -- The disposed node is no dependency any more, and not alive either.
      have hgone : (if m ∈ s.graph.observersOf d then (s.graph.edgesOf m).erase d
          else s.graph.edgesOf m).lookup d = none := by
        split
        · exact AList.lookup_erase d _
        · rename_i hwatch
          rw [← h.consistent.inverse m d] at hwatch
          exact AList.lookup_eq_none.mpr hwatch
      rw [hgone]
      simp
    · have hsame : (if m ∈ s.graph.observersOf n then (s.graph.edgesOf m).erase n
          else s.graph.edgesOf m).lookup d = (s.graph.edgesOf m).lookup d := by
        split
        · exact AList.lookup_erase_ne hd
        · rfl
      rw [hsame, hbefore]
      simp [hd]

/-- What follows a return takes place in the context of the caller. -/
theorem proceed (h : s.Sound) (changed : Bool) (call : TrackCall)
    (held : ∀ n tracked, call = .reading n tracked → n ∈ s.graph.nodeMeta) :
    (s.proceed changed call).Sound ∧ (s.proceed changed call).context = s.context := by
  cases call with
  | reading n tracked =>
    simp only [TrackHost.proceed]
    split
    · exact h.observe (held n tracked rfl)
    · exact ⟨h, rfl⟩
  | computing n u =>
    simp only [TrackHost.proceed]
    split
    · refine ⟨h.push (.accepting n) rfl ?_ ?_, rfl⟩
      · intro m u hc
        cases hc
      · intro m tracked hc
        cases hc
    · exact ⟨h, rfl⟩
  | accepting n =>
    simp only [TrackHost.proceed]
    split
    · exact ⟨h.bump n, by simp [context]⟩
    · exact ⟨h, rfl⟩
  | untracking => exact ⟨h, rfl⟩

theorem finish (h : s.Sound) {f : TrackFrame} {rest : List TrackFrame} (hf : s.frames = f :: rest)
    (changed : Bool) :
    ((({ s with frames := rest } : TrackHost).dropGuards f.call).proceed changed f.call).Sound ∧
    ((({ s with frames := rest } : TrackHost).dropGuards f.call).proceed changed f.call).context =
      f.entry := by
  obtain ⟨hsound, hcontext, _⟩ := h.dropGuards hf
  have hheld : ∀ n tracked, f.call = .reading n tracked →
      n ∈ (({ s with frames := rest } : TrackHost).dropGuards f.call).graph.nodeMeta := by
    intro n tracked hc
    rw [hc]
    obtain ⟨kind, hkind, _⟩ := h.held f (by rw [hf]; exact List.mem_cons_self) n tracked hc
    exact Graph.mem_of_nodeKind hkind
  obtain ⟨hafter, hsame⟩ := hsound.proceed changed f.call hheld
  exact ⟨hafter, hsame.trans hcontext⟩

theorem step (h : s.Sound) {op : TrackOp} (hs : step env s op = some t) : t.Sound := by
  cases op with
  | create kind =>
    cases hs
    have hplain := h.create kind s.graph.observers
    split
    · exact h.create kind _
    · exact hplain
  | read n tracked =>
    simp only [TrackHost.step] at hs
    cases hk : s.graph.nodeKind n with
    | none =>
      rw [hk] at hs
      cases hs
    | some kind =>
      simp only [hk] at hs
      split at hs
      · rename_i hcomputed
        cases hs
        split
        · exact h
        · refine h.push (.reading n tracked) rfl ?_ ?_
          · intro m u hc
            cases hc
          · intro m tracked' hc
            cases hc
            exact ⟨kind, hk, hcomputed⟩
      · cases hs
        split
        · exact (h.observe (Graph.mem_of_nodeKind hk)).1
        · exact h
  | run n =>
    simp only [TrackHost.step] at hs
    split at hs
    · rename_i hobserver
      rw [Option.any_eq_true] at hobserver
      obtain ⟨kind, hk, _⟩ := hobserver
      cases hs
      split
      · exact h
      · rename_i hidle
        exact h.enter (Graph.mem_of_nodeKind hk) hidle
    · cases hs
  | untrack =>
    cases hs
    exact h.untrack
  | write n =>
    cases hs
    exact h.bump n
  | dispose n =>
    simp only [TrackHost.step] at hs
    split at hs
    · rename_i hfree
      cases hs
      exact h.dispose hfree
    · cases hs
  | finish changed =>
    simp only [TrackHost.step] at hs
    cases hf : s.frames with
    | nil =>
      rw [hf] at hs
      cases hs
    | cons f rest =>
      rw [hf] at hs
      cases hs
      exact (h.finish hf changed).1
  | unwind =>
    simp only [TrackHost.step] at hs
    cases hf : s.frames with
    | nil =>
      rw [hf] at hs
      cases hs
    | cons f rest =>
      rw [hf] at hs
      cases hs
      exact (h.dropGuards hf).1

end Sound

theorem Reached.sound (h : s.Reached env) : s.Sound :=
  Runs.Reaches.invariant Sound sound_empty (fun _ _ _ hs _ hstep => hs.step hstep) h

end TrackHost

end Adaptite
