import Adaptite.Ledger

set_option autoImplicit false

namespace Adaptite

def Relates {V : Type} (equals : Equals V) (u v : V) : Prop := equals u v = .ok true

/-- To replace the first value by the second one is no change. -/
def NetComputed.Suppresses {V : Type} (x : NetComputed V) (u v : V) : Prop :=
  ∃ equals, x.equals = some equals ∧ Relates equals u v

namespace Ledger

variable {V : Type} {l : Ledger V} {n o : NodeId} {v : V}

/-- What was read of a node is the value that it has now, up to suppressed changes. -/
def Holds (l : Ledger V) (e : NodeId × ℕ × V) : Prop :=
  (∀ y, l.signals e.1 = some y → y.value = e.2.2) ∧
    ∀ x v, l.cells e.1 = some x → x.value = some v →
      Relation.ReflTransGen x.Suppresses e.2.2 v

/-- Every node that was read has a value, and what was read at its present version still
holds. What a thunk or a memo has read is recorded at the version that was read; of an effect,
whose run may write, what it has read last. -/
structure Drifted (l : Ledger V) : Prop where
  valued : ∀ o, ∀ e ∈ l.saw o, (l.signals e.1).isSome = true ∨
    ∃ x, l.cells e.1 = some x ∧ x.value.isSome = true
  below : ∀ o, ∀ e ∈ l.saw o, e.2.1 ≤ l.version e.1
  holds : ∀ o, ∀ e ∈ l.saw o, e.2.1 = l.version e.1 → l.Holds e
  recorded : ∀ o, (l.cells o).isSome = true → ∀ e ∈ l.saw o, (e.1, e.2.1) ∈ l.dependencies o
  last : ∀ o d e, (l.saw o).find? (fun r => r.1 = d) = some e → (e.1, e.2.1) ∈ l.dependencies o

namespace Drifted

theorem entered (h : l.Drifted) (n : NodeId) (ran started : List NodeId) : Drifted
    { l with
      dependencies := Function.update l.dependencies n []
      saw := Function.update l.saw n []
      ran
      started } := by
  have hsaw : ∀ o, ∀ e ∈ Function.update l.saw n [] o, o ≠ n ∧ e ∈ l.saw o := by
    intro o e he
    by_cases ho : o = n
    · rw [ho, Function.update_self] at he
      cases he
    · rw [Function.update_of_ne ho] at he
      exact ⟨ho, he⟩
  exact {
    valued := fun o e he => h.valued o e (hsaw o e he).2
    below := fun o e he => h.below o e (hsaw o e he).2
    holds := fun o e he => h.holds o e (hsaw o e he).2
    recorded := fun o hc e he => by
      obtain ⟨ho, he⟩ := hsaw o e he
      change _ ∈ Function.update l.dependencies n [] o
      rw [Function.update_of_ne ho]
      exact h.recorded o hc e he
    last := fun o d e he => by
      obtain ⟨ho, -⟩ := hsaw o e (List.mem_of_find?_eq_some he)
      change _ ∈ Function.update l.dependencies n [] o
      rw [Function.update_of_ne ho]
      have he : (Function.update l.saw n [] o).find? (fun r => r.1 = d) = some e := he
      rw [Function.update_of_ne ho] at he
      exact h.last o d e he }

theorem suppresses_of_differs {x : NetComputed V} (hd : x.differs v = .ok false) :
    ∃ u, x.value = some u ∧ x.Suppresses u v := by
  unfold NetComputed.differs at hd
  split at hd
  · rename_i equals u he hu
    refine ⟨u, hu, equals, he, ?_⟩
    unfold Relates
    cases hr : equals u v with
    | error w => rw [hr] at hd; cases hd
    | ok b =>
      rw [hr] at hd
      cases b with
      | true => rfl
      | false => cases hd
  · cases hd

/-- The comparator has related the new value to the old one, or the version is new. -/
theorem stored (h : l.Drifted) {x : NetComputed V} (hn : l.signals n = none)
    (hx : l.cells n = some x) {changed : Bool}
    (hd : x.differs v = .ok changed) : Drifted
    { l with
      cells := Function.update l.cells n (some { x with value := some v })
      version := if changed then Function.update l.version n (l.version n + 1) else l.version } := by
  have hsame : ∀ d, d ≠ n → (if changed = true then Function.update l.version n (l.version n + 1)
      else l.version) d = l.version d := by
    intro d hne
    split
    · exact Function.update_of_ne hne _ _
    · rfl
  have hle : ∀ d, l.version d ≤ (if changed = true then
      Function.update l.version n (l.version n + 1) else l.version) d := by
    intro d
    by_cases hne : d = n
    · subst hne
      split
      · rw [Function.update_self]
        exact Nat.le_succ _
      · exact le_refl _
    · exact le_of_eq (hsame d hne).symm
  refine { valued := ?_, below := ?_, holds := ?_, recorded := ?_, last := h.last }
  · intro o e he
    refine (h.valued o e he).imp_right fun hv => ?_
    obtain ⟨y, hy, hsome⟩ := hv
    by_cases hne : e.1 = n
    · exact ⟨{ x with value := some v }, by rw [hne]; exact Function.update_self _ _ _, rfl⟩
    · exact ⟨y, (Function.update_of_ne hne _ _).trans hy, hsome⟩
  · exact fun o e he => (h.below o e he).trans (hle e.1)
  · intro o e he hk
    refine ⟨fun y hy => ?_, fun y w hy hw => ?_⟩
    · refine (h.holds o e he ?_).1 y hy
      rw [← hsame e.1 fun hne => ?_]
      · exact hk
      · have hy : l.signals e.1 = some y := hy
        rw [hne, hn] at hy
        cases hy
    by_cases hne : e.1 = n
    · have hy : Function.update l.cells n (some { x with value := some v }) e.1 = some y := hy
      rw [hne, Function.update_self] at hy
      cases hy
      cases hw
      have hbelow := h.below o e he
      cases changed with
      | true =>
        have hk : e.2.1 = Function.update l.version n (l.version n + 1) e.1 := hk
        rw [hne, Function.update_self] at hk
        rw [hne] at hbelow
        omega
      | false =>
        have hk : e.2.1 = l.version e.1 := hk
        obtain ⟨u, hu, hs⟩ := suppresses_of_differs hd
        have hold : Relation.ReflTransGen x.Suppresses e.2.2 u :=
          (h.holds o e he hk).2 x u (by rw [hne]; exact hx) hu
        exact hold.tail hs
    · have hy : Function.update l.cells n (some { x with value := some v }) e.1 = some y := hy
      rw [Function.update_of_ne hne] at hy
      refine (h.holds o e he ?_).2 y w hy hw
      rw [← hsame e.1 hne]
      exact hk
  · intro o hc e he
    refine h.recorded o ?_ e he
    have hc : (Function.update l.cells n (some { x with value := some v }) o).isSome = true := hc
    by_cases ho : o = n
    · rw [ho, hx]
      rfl
    · rw [Function.update_of_ne ho] at hc
      exact hc

theorem wrote (h : l.Drifted) (n : NodeId) (y : NetSignal V) : Drifted
    { l with
      signals := Function.update l.signals n (some y)
      version := Function.update l.version n (l.version n + 1)
      ran := [] } := by
  refine { valued := ?_, below := ?_, holds := ?_, recorded := h.recorded, last := h.last }
  · intro o e he
    refine (h.valued o e he).imp_left fun hs => ?_
    change (Function.update l.signals n _ e.1).isSome = true
    by_cases hne : e.1 = n
    · rw [hne, Function.update_self]
      rfl
    · rw [Function.update_of_ne hne]
      exact hs
  · intro o e he
    change e.2.1 ≤ Function.update l.version n (l.version n + 1) e.1
    have hbelow := h.below o e he
    by_cases hne : e.1 = n
    · rw [hne, Function.update_self]
      rw [hne] at hbelow
      omega
    · rw [Function.update_of_ne hne]
      exact hbelow
  · intro o e he hk
    have hbelow := h.below o e he
    have hk : e.2.1 = Function.update l.version n (l.version n + 1) e.1 := hk
    have hne : e.1 ≠ n := fun hne => by
      rw [hne, Function.update_self] at hk
      rw [hne] at hbelow
      omega
    rw [Function.update_of_ne hne] at hk
    refine ⟨fun z hz => ?_, (h.holds o e he hk).2⟩
    have hz : Function.update l.signals n (some y) e.1 = some z := hz
    rw [Function.update_of_ne hne] at hz
    exact (h.holds o e he hk).1 z hz

theorem made (h : l.Drifted) (hs : l.signals n = none) (hc : l.cells n = none)
    (hsaw : l.saw n = []) {signals : NodeId → Option (NetSignal V)}
    {cells : NodeId → Option (NetComputed V)} (h1 : ∀ d, d ≠ n → signals d = l.signals d)
    (h2 : ∀ d, d ≠ n → cells d = l.cells d) (nextNode : ℕ) :
    Drifted { l with nextNode, signals, cells } := by
  have hne : ∀ o, ∀ e ∈ l.saw o, e.1 ≠ n := by
    intro o e he hn
    rcases h.valued o e he with hv | ⟨x, hx, -⟩
    · rw [hn, hs] at hv
      cases hv
    · rw [hn, hc] at hx
      cases hx
  refine { valued := ?_, below := h.below, holds := ?_, recorded := ?_, last := h.last }
  · intro o e he
    change (signals e.1).isSome = true ∨ ∃ x, cells e.1 = some x ∧ x.value.isSome = true
    rw [h1 e.1 (hne o e he), h2 e.1 (hne o e he)]
    exact h.valued o e he
  · intro o e he hk
    refine ⟨fun y hy => ?_, fun x v hx => ?_⟩
    · have hy : signals e.1 = some y := hy
      rw [h1 e.1 (hne o e he)] at hy
      exact (h.holds o e he hk).1 y hy
    · have hx : cells e.1 = some x := hx
      rw [h2 e.1 (hne o e he)] at hx
      exact (h.holds o e he hk).2 x v hx
  · intro o ho e he
    have ho : (cells o).isSome = true := ho
    refine h.recorded o ?_ e he
    rw [← h2 o fun hon => ?_]
    · exact ho
    · rw [hon, hsaw] at he
      cases he

/-- A thunk or a memo that reads a node again finds it at the version that it has recorded. -/
theorem lent (h : l.Drifted) {edges : NodeId → EdgeTable} {cached : Option V}
    (hother : ∀ x, x ≠ o → edges x = l.dependencies x)
    (hmem : ∀ e, e ∈ edges o ↔ e = (n, l.version n) ∨ e ∈ l.dependencies o ∧ e.1 ≠ n)
    (hagain : (l.cells o).isSome = true → ∀ k, (n, k) ∈ l.dependencies o → k = l.version n)
    (hnone : cached = none → l.signals n = none ∧ ∀ x, l.cells n = some x → x.value = none)
    (hsome : ∀ v, cached = some v → ((l.signals n).isSome = true ∨ (l.cells n).isSome = true) ∧
      (∀ y, l.signals n = some y → y.value = v) ∧
      ∀ x, l.cells n = some x → x.value = some v) : Drifted
    { l with
      dependencies := edges
      saw := cached.elim l.saw fun v =>
        Function.update l.saw o ((n, l.version n, v) :: l.saw o) } := by
  have hkept : ∀ x d k, (d, k) ∈ l.dependencies x → (x = o → d ≠ n ∨ k = l.version n) →
      (d, k) ∈ edges x := by
    intro x d k hk hd
    by_cases hx : x = o
    · subst hx
      refine (hmem _).mpr ?_
      by_cases hdn : d = n
      · rw [hdn, (hd rfl).resolve_left fun hne => hne hdn]
        exact .inl rfl
      · exact .inr ⟨hk, hdn⟩
    · rw [hother x hx]
      exact hk
  cases cached with
  | none =>
    obtain ⟨hs, hc⟩ := hnone rfl
    have hne : ∀ x, ∀ e ∈ l.saw x, e.1 ≠ n := by
      intro x e he hen
      rcases h.valued x e he with hv | ⟨y, hy, hv⟩
      · rw [hen, hs] at hv
        cases hv
      · rw [hen] at hy
        rw [hc y hy] at hv
        cases hv
    exact {
      valued := h.valued
      below := h.below
      holds := h.holds
      recorded := fun x hx e he =>
        hkept x e.1 e.2.1 (h.recorded x hx e he) fun _ => .inl (hne x e he)
      last := fun x d e he =>
        hkept x e.1 e.2.1 (h.last x d e he) fun _ => .inl (hne x e (List.mem_of_find?_eq_some he)) }
  | some v =>
    obtain ⟨hv, hsv, hc⟩ := hsome v rfl
    have hsaw : ∀ x, ∀ e ∈ Function.update l.saw o ((n, l.version n, v) :: l.saw o) x,
        x = o ∧ e = (n, l.version n, v) ∨ e ∈ l.saw x := by
      intro x e he
      by_cases hx : x = o
      · subst hx
        rw [Function.update_self] at he
        exact (List.mem_cons.mp he).imp_left fun he => ⟨rfl, he⟩
      · rw [Function.update_of_ne hx] at he
        exact .inr he
    refine { valued := ?_, below := ?_, holds := ?_, recorded := ?_, last := ?_ }
    · intro x e he
      rcases hsaw x e he with ⟨-, rfl⟩ | he
      · refine hv.imp_right fun hv => ?_
        obtain ⟨y, hy⟩ := Option.isSome_iff_exists.mp hv
        exact ⟨y, hy, by rw [hc y hy]; rfl⟩
      · exact h.valued x e he
    · intro x e he
      rcases hsaw x e he with ⟨-, rfl⟩ | he
      · exact le_refl _
      · exact h.below x e he
    · intro x e he hk
      rcases hsaw x e he with ⟨-, rfl⟩ | he
      · refine ⟨hsv, fun y w hy hw => ?_⟩
        cases (hc y hy).symm.trans hw
        exact .refl
      · exact h.holds x e he hk
    · intro x hx e he
      rcases hsaw x e he with ⟨rfl, rfl⟩ | he
      · exact (hmem _).mpr (.inl rfl)
      · refine hkept x e.1 e.2.1 (h.recorded x hx e he) fun hxo => ?_
        by_cases hen : e.1 = n
        · refine .inr (hagain (hxo ▸ hx) e.2.1 ?_)
          rw [← hen, ← hxo]
          exact h.recorded x hx e he
        · exact .inl hen
    · intro x d e he
      let p : NodeId × ℕ × V → Bool := fun r => r.1 = d
      change (Function.update l.saw o ((n, l.version n, v) :: l.saw o) x).find? p = some e at he
      by_cases hx : x = o
      · subst hx
        rw [Function.update_self] at he
        by_cases hd : n = d
        · rw [List.find?_cons_of_pos (p := p) (decide_eq_true hd)] at he
          cases he
          exact (hmem _).mpr (.inl rfl)
        · rw [List.find?_cons_of_neg (p := p) (by simpa [p] using hd)] at he
          have hed : e.1 = d := of_decide_eq_true (List.find?_some (p := p) he)
          refine hkept x e.1 e.2.1 (h.last x d e he) fun _ => .inl ?_
          rw [hed]
          exact Ne.symm hd
      · rw [Function.update_of_ne hx] at he
        exact hkept x e.1 e.2.1 (h.last x d e he) fun hxo => absurd hxo hx

theorem recorded_any (h : l.Drifted) (ho : l.saw o ≠ []) : l.dependencies o ≠ [] := by
  obtain ⟨e, rest, hs⟩ := List.exists_cons_of_ne_nil ho
  have hmem := h.last o e.1 e (by rw [hs]; exact List.find?_cons_of_pos (decide_eq_true rfl))
  exact List.ne_nil_of_mem hmem

end Drifted

end Ledger

namespace NetHost

variable {V : Type} {layout : Layout} {s t : NetHost V} {n e : NodeId}

theorem Undisturbed.drifted (h : s.Undisturbed) (hl : s.ledger.Drifted) {op : NetStep V}
    (ht : s.step layout op = some t) : t.ledger.Drifted := by
  have hw := h.wired
  have hnext : s.net.signals s.net.nextNode = none ∧ s.net.computed s.net.nextNode = none ∧
      s.saw s.net.nextNode = [] := by
    refine ⟨?_, ?_, ?_⟩
    · by_contra hs
      obtain ⟨y, hy⟩ := Option.ne_none_iff_exists'.mp hs
      exact absurd (hw.net.source _ y hy).1 (lt_irrefl _)
    · by_contra hs
      obtain ⟨y, hy⟩ := Option.ne_none_iff_exists'.mp hs
      exact absurd (hw.net.known _ y hy) (lt_irrefl _)
    · by_contra hs
      obtain ⟨e, he⟩ := List.exists_mem_of_ne_nil _ (hl.recorded_any hs)
      exact absurd (hw.net.below _ e he).1 (lt_irrefl _)
  obtain ⟨hsig, hcomp, hsaw⟩ := hnext
  have hcell : s.ledger.cells s.net.nextNode = none := by
    unfold ledger
    dsimp only
    rw [hcomp]
    rfl
  cases shift_step hw ht with
  | steady hledger => rw [hledger]; exact hl
  | signal v same hledger =>
    rw [hledger]
    exact hl.made hsig hcell hsaw (fun d hd => Function.update_of_ne hd _ _) (fun _ _ => rfl) _
  | computed compute equals hop _ hledger =>
    rw [hledger]
    exact hl.made hsig hcell hsaw (fun _ _ => rfl) (fun d hd => Function.update_of_ne hd _ _) _
  | effect body hnet hledger =>
    rw [hledger]
    exact ⟨hl.valued, hl.below, hl.holds, hl.recorded, hl.last⟩
  | entered n why hu hledger => rw [hledger]; exact hl.entered n _ _
  | stored n v changed untracked rest x hs hop hx hd hb hledger =>
    rw [hledger]
    have hcellx : s.ledger.cells n = some x.unmarked := congrArg (Option.map _) hx
    have hsn : s.net.signals n = none := by
      by_contra hsome
      obtain ⟨y, hy⟩ := Option.ne_none_iff_exists'.mp hsome
      rw [(hw.net.source n y hy).2] at hx
      cases hx
    exact hl.stored hsn hcellx hd
  | wrote n v y hy hop hc hwrite hledger =>
    rw [hledger]
    exact hl.wrote n _
  | lent n o rest stack hs hz ho hu hledger =>
    rw [hledger]
    have hedge : s.net.recordEdge layout n =
        (s.net.insertEdge layout o n).insertDependent layout n o := by
      unfold Net.recordEdge
      rw [if_neg (by omega), ho]
    refine hl.lent (fun x hx => ?_) (fun e => ?_) (fun hc k hk => ?_) (fun hv => ?_) fun v hv => ?_
    · rw [hedge]
      exact Function.update_of_ne hx _ _
    · rw [hedge]
      exact Net.mem_insertEdge o n e
    · have ho' : (s.net.computed o).isSome = true := by
        have hc : ((s.net.computed o).map NetComputed.unmarked).isSome = true := hc
        rw [Option.isSome_map] at hc
        exact hc
      obtain ⟨y, hy⟩ := Option.isSome_iff_exists.mp ho'
      have hin : o ∈ s.net.stack := by
        rw [ho]
        exact List.mem_cons_self
      have hclean : y.state = .clean := by
        by_contra hne
        exact h.idle hy hne hin
      exact (h.exact o y hy hclean (n, k) hk).1.symm
    · have hv : s.net.cached n = none := hv
      unfold Net.cached at hv
      refine ⟨?_, fun x hx => ?_⟩
      · cases hsn : s.net.signals n with
        | none => exact hsn
        | some y => rw [hsn] at hv; cases hv
      · obtain ⟨y, hy, rfl⟩ := Option.map_eq_some_iff.mp hx
        split at hv
        · cases hv
        · rw [hy] at hv
          exact hv
    · have hv : s.net.cached n = some v := hv
      unfold Net.cached at hv
      split at hv
      · rename_i y hy
        have hcn : s.ledger.cells n = none := congrArg (Option.map _) (hw.net.source n y hy).2
        refine ⟨.inl (by change (s.net.signals n).isSome = true; rw [hy]; rfl), fun z hz => ?_,
          fun x hx => ?_⟩
        · cases hy.symm.trans hz
          exact Option.some.inj hv
        · cases hcn.symm.trans hx
      · rename_i hsn
        obtain ⟨y, hy, hyv⟩ := Option.bind_eq_some_iff.mp hv
        have hcn : s.ledger.cells n = some y.unmarked := congrArg (Option.map _) hy
        refine ⟨.inr (by rw [hcn]; rfl), fun z hz => ?_, fun x hx => ?_⟩
        · cases hsn.symm.trans hz
        cases hcn.symm.trans hx
        exact hyv

theorem ReachedPure.drifted (h : s.ReachedPure layout) : s.Undisturbed ∧ s.ledger.Drifted := by
  refine h.invariant (fun s => s.Undisturbed ∧ s.ledger.Drifted) ⟨undisturbed_empty, ?_⟩ ?_
  · exact {
      valued := fun o e he => by cases he
      below := fun o e he => by cases he
      holds := fun o e he => by cases he
      recorded := fun o ho => by cases ho
      last := fun o d e he => by cases he }
  · exact fun s op t hs ok ht => ⟨hs.1.step (by simpa using ok) ht, hs.1.drifted hs.2 ht⟩

/-- What was read of a memo is related to the value that it has now. -/
def Holds (s : NetHost V) (e : NodeId × ℕ × V) : Prop :=
  ∀ x equals v, s.net.computed e.1 = some x → x.equals = some equals →
    Equivalence (Relates equals) → x.value = some v → Relates equals e.2.2 v

def sameValue : Equals ℕ := fun u v => .ok (u == v)

end NetHost

end Adaptite
