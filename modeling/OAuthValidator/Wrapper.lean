import OAuthValidator.Interleaving

/-! Programs that make at most one call of another program. A run of the callers,
without the starts that lead to no call, is a run of the calls they make. -/

namespace Interleaving

open Program

variable {Op : Type} {Ans : Op → Type} {Arg Arg' α β σ : Type}

/-- `outer` decides at once, or it calls `inner` and decides on what that returned. -/
structure Wraps (outer : Arg → Prog Op Ans β) (inner : Arg' → Prog Op Ans α)
    (request : Arg → Option Arg') (finish : Arg → α → β) : Prop where
  decides : ∀ arg, request arg = none → ∃ b, outer arg = .ret b
  calls : ∀ arg a, request arg = some a → outer arg = (inner a).bind fun r => .ret (finish arg r)

def requestEvent (request : Arg → Option Arg') :
    Event Op Ans Arg × σ → Option (Event Op Ans Arg' × σ)
  | (.start i arg, s) => (request arg).map fun a => (.start i a, s)
  | (.act i op ans, s) => some (.act i op ans, s)
  | (.drift, s) => some (.drift, s)

/-- The history of the calls that the callers make. -/
def requests (request : Arg → Option Arg') (h : History Op Ans Arg σ) : History Op Ans Arg' σ :=
  h.filterMap (requestEvent request)

variable {outer : Arg → Prog Op Ans β} {request : Arg → Option Arg'} {finish : Arg → α → β}

theorem mem_requests_act {h : History Op Ans Arg σ} {i : Nat} {op : Op} {ans : Ans op} {s : σ} :
    (.act i op ans, s) ∈ requests request h ↔ (.act i op ans, s) ∈ h := by
  simp only [requests, List.mem_filterMap]
  constructor
  · rintro ⟨⟨e, s'⟩, he, heq⟩
    cases e with
    | start j arg =>
      obtain ⟨a, _, ha⟩ := Option.map_eq_some_iff.mp heq
      cases ha
    | act j op' ans' =>
      cases Option.some.inj heq
      exact he
    | drift => cases Option.some.inj heq
  · intro he
    exact ⟨_, he, rfl⟩

theorem mem_requests_start {h : History Op Ans Arg σ} {i : Nat} {a : Arg'} {s : σ} :
    (.start i a, s) ∈ requests request h ↔ ∃ arg, (.start i arg, s) ∈ h ∧ request arg = some a := by
  simp only [requests, List.mem_filterMap]
  constructor
  · rintro ⟨⟨e, s'⟩, he, heq⟩
    cases e with
    | start j arg =>
      obtain ⟨a', ha', heq⟩ := Option.map_eq_some_iff.mp heq
      cases heq
      exact ⟨arg, he, ha'⟩
    | act j op ans => cases Option.some.inj heq
    | drift => cases Option.some.inj heq
  · rintro ⟨arg, he, ha⟩
    exact ⟨_, he, by simp [requestEvent, ha]⟩

/-- A caller and the call it has made, at the same point of their execution. -/
inductive Made (outer : Arg → Prog Op Ans β) (request : Arg → Option Arg') (finish : Arg → α → β) :
    Call Op Ans Arg β → Option (Call Op Ans Arg' α) → Prop
  | decided {arg : Arg} {b : β} (h : request arg = none) (value : outer arg = .ret b) :
      Made outer request finish ⟨arg, [], .ret b⟩ none
  | called {arg : Arg} {a : Arg'} {tr : Trace Op Ans} {rest : Prog Op Ans α}
      (h : request arg = some a) :
      Made outer request finish ⟨arg, tr, rest.bind fun r => .ret (finish arg r)⟩ (some ⟨a, tr, rest⟩)

/-- A caller that is about to act is within its call. -/
theorem Made.acting {arg : Arg} {tr : Trace Op Ans} {op : Op} {next : Ans op → Prog Op Ans β}
    {made : Option (Call Op Ans Arg' α)} (h : Made outer request finish ⟨arg, tr, .ask op next⟩ made) :
    ∃ a next', request arg = some a ∧ made = some ⟨a, tr, .ask op next'⟩ ∧
      next = fun ans => (next' ans).bind fun r => .ret (finish arg r) := by
  generalize hcall : (⟨arg, tr, .ask op next⟩ : Call Op Ans Arg β) = call at h
  cases h with
  | decided _ _ => simp at hcall
  | @called arg' a tr' rest ha =>
    obtain ⟨rfl, rfl, hrest⟩ := Call.mk.inj hcall
    cases rest with
    | ret r => simp [Prog.bind] at hrest
    | ask op' next' =>
      obtain ⟨rfl, hnext⟩ := Prog.ask.inj hrest
      exact ⟨a, next', ha, rfl, eq_of_heq hnext⟩

/-- A caller that has returned decided on its own, or on what its call returned. -/
theorem Made.returned {arg : Arg} {tr : Trace Op Ans} {b : β} {made : Option (Call Op Ans Arg' α)}
    (h : Made outer request finish ⟨arg, tr, .ret b⟩ made) :
    (request arg = none ∧ outer arg = .ret b) ∨
      ∃ a r, request arg = some a ∧ made = some ⟨a, tr, .ret r⟩ ∧ b = finish arg r := by
  generalize hcall : (⟨arg, tr, .ret b⟩ : Call Op Ans Arg β) = call at h
  cases h with
  | decided hnone value =>
    obtain ⟨rfl, _, hb⟩ := Call.mk.inj hcall
    exact Or.inl ⟨hnone, hb ▸ value⟩
  | @called arg' a tr' rest ha =>
    obtain ⟨rfl, rfl, hrest⟩ := Call.mk.inj hcall
    cases rest with
    | ret r => exact Or.inr ⟨a, r, ha, rfl, Prog.ret.inj hrest⟩
    | ask op next => simp [Prog.bind] at hrest

/-- The configurations of the callers and of their calls. -/
structure Agrees (outer : Arg → Prog Op Ans β) (request : Arg → Option Arg') (finish : Arg → α → β)
    (c : Config Op Ans Arg β σ) (c' : Config Op Ans Arg' α σ) : Prop where
  shared : c'.shared = c.shared
  unused : ∀ i, c.calls i = none → c'.calls i = none
  made : ∀ i call, c.calls i = some call → Made outer request finish call (c'.calls i)

theorem Agrees.update {c : Config Op Ans Arg β σ} {c' : Config Op Ans Arg' α σ} {i : Nat}
    {call : Call Op Ans Arg β} {call' : Call Op Ans Arg' α} {s : σ}
    (h : Agrees outer request finish c c') (hm : Made outer request finish call (some call')) :
    Agrees outer request finish ⟨s, Function.update c.calls i (some call)⟩
      ⟨s, Function.update c'.calls i (some call')⟩ := by
  refine ⟨rfl, fun j hj => ?_, fun j found hj => ?_⟩
  · by_cases hij : j = i
    · subst hij
      simp at hj
    · simp only [Function.update_of_ne hij] at hj ⊢
      exact h.unused j hj
  · rcases updated_call hj with ⟨rfl, rfl⟩ | ⟨hij, hj⟩
    · simp only [Function.update_self]
      exact hm
    · simp only [Function.update_of_ne hij]
      exact h.made j found hj

variable {S : System Op Ans Arg β σ} {T : System Op Ans Arg' α σ} {init : σ → Prop}

/-- Every run of the callers is a run of the calls they make, over the same
shared states. -/
theorem Run.requests (hw : Wraps S.body T.body request finish) (hperform : T.perform = S.perform)
    (hdrift : T.drift = S.drift)
    (hadmits : ∀ s arg a, S.admits s arg → request arg = some a → T.admits s a)
    {h : History Op Ans Arg σ} {c : Config Op Ans Arg β σ} (hr : Run S init h c) :
    ∃ c', Run T init (requests request h) c' ∧ Agrees S.body request finish c c' := by
  induction hr with
  | init hs => exact ⟨_, .init hs, rfl, fun _ _ => rfl, fun _ _ hc => by simp at hc⟩
  | @start h c i arg _ unused admitted ih =>
    obtain ⟨c', hr', ha⟩ := ih
    cases hreq : request arg with
    | none =>
      -- the caller decides at once: no call is made and nothing moves
      obtain ⟨b, hb⟩ := hw.decides arg hreq
      have hskip : Interleaving.requests request ((.start i arg, c.shared) :: h) =
          Interleaving.requests request h := by
        simp [Interleaving.requests, requestEvent, hreq]
      rw [hskip]
      refine ⟨c', hr', ha.shared, fun j hj => ?_, fun j call hj => ?_⟩
      · by_cases hij : j = i
        · subst hij
          simp at hj
        · simp only [Function.update_of_ne hij] at hj
          exact ha.unused j hj
      · rcases updated_call hj with ⟨rfl, rfl⟩ | ⟨_, hj⟩
        · rw [ha.unused j unused, hb]
          exact .decided hreq hb
        · exact ha.made j call hj
    | some a =>
      have hstart : Interleaving.requests request ((.start i arg, c.shared) :: h) =
          (.start i a, c'.shared) :: Interleaving.requests request h := by
        simp [Interleaving.requests, requestEvent, hreq, ha.shared]
      rw [hstart]
      refine ⟨_, .start i a hr' (ha.unused i unused)
        (ha.shared ▸ hadmits _ _ _ admitted hreq), ?_⟩
      rw [hw.calls arg a hreq, ha.shared]
      exact ha.update (.called hreq)
  | @act h c i arg tr op next ans s _ call perform ih =>
    obtain ⟨c', hr', ha⟩ := ih
    obtain ⟨a, next', hreq, hcall', rfl⟩ := (ha.made i _ call).acting
    have hact : Interleaving.requests request ((.act i op ans, c.shared) :: h) =
        (.act i op ans, c'.shared) :: Interleaving.requests request h := by
      simp [Interleaving.requests, requestEvent, ha.shared]
    rw [hact]
    have hstep : T.perform c'.shared op ans s := by
      rw [hperform, ha.shared]
      exact perform
    exact ⟨_, .act i ans hr' hcall' hstep, ha.update (.called hreq)⟩
  | @drift h c s _ moved ih =>
    obtain ⟨c', hr', ha⟩ := ih
    have hmove : Interleaving.requests request ((.drift, c.shared) :: h) =
        (.drift, c'.shared) :: Interleaving.requests request h := by
      simp [Interleaving.requests, requestEvent, ha.shared]
    rw [hmove]
    have hstep : T.drift c'.shared s := by
      rw [hdrift, ha.shared]
      exact moved
    exact ⟨_, .drift hr' hstep, rfl, ha.unused, ha.made⟩

end Interleaving
