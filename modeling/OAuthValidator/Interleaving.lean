import OAuthValidator.Program

/-! Any number of calls of one program over a shared state. Between any two
operations of a call the others may act and the environment may move. A history
lists the events with the shared state each one found, newest first. -/

namespace Interleaving

open Program

structure System (Op : Type) (Ans : Op → Type) (Arg α σ : Type) where
  body : Arg → Prog Op Ans α
  /-- An operation may get an answer and move the shared state. -/
  perform : σ → (op : Op) → Ans op → σ → Prop
  /-- What the environment may do on its own. -/
  drift : σ → σ → Prop
  /-- The arguments a call may be started with. -/
  admits : σ → Arg → Prop

/-- A call that was started, with its exchanges so far and what remains of it.
A call that has returned remains as its value. -/
structure Call (Op : Type) (Ans : Op → Type) (Arg α : Type) where
  arg : Arg
  trace : Trace Op Ans
  rest : Prog Op Ans α

structure Config (Op : Type) (Ans : Op → Type) (Arg α σ : Type) where
  shared : σ
  calls : Nat → Option (Call Op Ans Arg α)

inductive Event (Op : Type) (Ans : Op → Type) (Arg : Type)
  | start (i : Nat) (arg : Arg)
  | act (i : Nat) (op : Op) (ans : Ans op)
  | drift

variable {Op : Type} {Ans : Op → Type} {Arg α σ : Type}

abbrev History (Op : Type) (Ans : Op → Type) (Arg σ : Type) := List (Event Op Ans Arg × σ)

inductive Run (S : System Op Ans Arg α σ) (init : σ → Prop) :
    History Op Ans Arg σ → Config Op Ans Arg α σ → Prop
  | init {s : σ} (h : init s) : Run S init [] ⟨s, fun _ => none⟩
  | start {h c} (i : Nat) (arg : Arg) (run : Run S init h c) (unused : c.calls i = none)
      (admitted : S.admits c.shared arg) :
      Run S init ((.start i arg, c.shared) :: h)
        ⟨c.shared, Function.update c.calls i (some ⟨arg, [], S.body arg⟩)⟩
  | act {h c} (i : Nat) {arg : Arg} {tr : Trace Op Ans} {op : Op} {next : Ans op → Prog Op Ans α}
      (ans : Ans op) {s : σ} (run : Run S init h c)
      (call : c.calls i = some ⟨arg, tr, .ask op next⟩) (perform : S.perform c.shared op ans s) :
      Run S init ((.act i op ans, c.shared) :: h)
        ⟨s, Function.update c.calls i (some ⟨arg, ⟨op, ans⟩ :: tr, next ans⟩)⟩
  | drift {h c} {s : σ} (run : Run S init h c) (moved : S.drift c.shared s) :
      Run S init ((.drift, c.shared) :: h) ⟨s, c.calls⟩

variable {S : System Op Ans Arg α σ} {init : σ → Prop} {G : Arg → Trace Op Ans → Op → Prop}
  {Q : Arg → Trace Op Ans → α → Prop}

theorem updated_call {calls : Nat → Option (Call Op Ans Arg α)} {i j : Nat}
    {new call : Call Op Ans Arg α} (h : Function.update calls j (some new) i = some call) :
    (i = j ∧ call = new) ∨ (i ≠ j ∧ calls i = some call) := by
  by_cases hij : i = j
  · subst hij
    rw [Function.update_self] at h
    exact Or.inl ⟨rfl, (Option.some.inj h).symm⟩
  · rw [Function.update_of_ne hij] at h
    exact Or.inr ⟨hij, h⟩

/-- Every call of a run keeps to what its program satisfies. -/
theorem Run.sat (hbody : ∀ arg, Sat (G arg) (Q arg) [] (S.body arg)) {h : History Op Ans Arg σ}
    {c : Config Op Ans Arg α σ} (hr : Run S init h c) {i : Nat} {call : Call Op Ans Arg α}
    (hc : c.calls i = some call) : Sat (G call.arg) (Q call.arg) call.trace call.rest := by
  induction hr generalizing i call with
  | init _ => simp at hc
  | start j arg _ _ _ ih =>
    rcases updated_call hc with ⟨rfl, rfl⟩ | ⟨_, hc⟩
    · exact hbody arg
    · exact ih hc
  | act j ans _ hcall _ ih =>
    rcases updated_call hc with ⟨rfl, rfl⟩ | ⟨_, hc⟩
    · exact (ih hcall).2 ans
    · exact ih hc
  | drift _ _ ih => exact ih hc

/-- Every call of a run was started with arguments that were admitted. -/
theorem Run.admitted {h : History Op Ans Arg σ} {c : Config Op Ans Arg α σ} (hr : Run S init h c)
    {i : Nat} {call : Call Op Ans Arg α} (hc : c.calls i = some call) : ∃ s, S.admits s call.arg := by
  induction hr generalizing i call with
  | init _ => simp at hc
  | start j arg _ _ hadmit ih =>
    rcases updated_call hc with ⟨rfl, rfl⟩ | ⟨_, hc⟩
    · exact ⟨_, hadmit⟩
    · exact ih hc
  | act j ans _ hcall _ ih =>
    rcases updated_call hc with ⟨rfl, rfl⟩ | ⟨_, hc⟩
    · obtain ⟨s, hs⟩ := ih hcall
      exact ⟨s, hs⟩
    · exact ih hc
  | drift _ _ ih => exact ih hc

/-- What every exchange of a call preserves holds of the trace of every call. -/
theorem Run.trace_invariant (hbody : ∀ arg, Sat (G arg) (Q arg) [] (S.body arg))
    {P : Trace Op Ans → Prop} (hnil : P [])
    (hcons : ∀ arg tr op ans, G arg tr op → P tr → P (⟨op, ans⟩ :: tr))
    {h : History Op Ans Arg σ} {c : Config Op Ans Arg α σ} (hr : Run S init h c) {i : Nat}
    {call : Call Op Ans Arg α} (hc : c.calls i = some call) : P call.trace := by
  induction hr generalizing i call with
  | init _ => simp at hc
  | start j arg _ _ _ ih =>
    rcases updated_call hc with ⟨rfl, rfl⟩ | ⟨_, hc⟩
    · exact hnil
    · exact ih hc
  | act j ans run hcall _ ih =>
    rcases updated_call hc with ⟨rfl, rfl⟩ | ⟨_, hc⟩
    · exact hcons _ _ _ ans (run.sat hbody hcall).1 (ih hcall)
    · exact ih hc
  | drift _ _ ih => exact ih hc

/-- Induction over a run in which every operation that is performed is known to
be one its call was permitted to ask for. -/
theorem Run.induct (hbody : ∀ arg, Sat (G arg) (Q arg) [] (S.body arg))
    {P : History Op Ans Arg σ → Config Op Ans Arg α σ → Prop}
    (hinit : ∀ s, init s → P [] ⟨s, fun _ => none⟩)
    (hstart : ∀ h c i arg, Run S init h c → P h c → c.calls i = none → S.admits c.shared arg →
      P ((.start i arg, c.shared) :: h)
        ⟨c.shared, Function.update c.calls i (some ⟨arg, [], S.body arg⟩)⟩)
    (hact : ∀ h c i arg tr op next ans s, Run S init h c → P h c →
      c.calls i = some ⟨arg, tr, .ask op next⟩ → G arg tr op → S.perform c.shared op ans s →
      P ((.act i op ans, c.shared) :: h)
        ⟨s, Function.update c.calls i (some ⟨arg, ⟨op, ans⟩ :: tr, next ans⟩)⟩)
    (hdrift : ∀ h c s, Run S init h c → P h c → S.drift c.shared s →
      P ((.drift, c.shared) :: h) ⟨s, c.calls⟩)
    {h : History Op Ans Arg σ} {c : Config Op Ans Arg α σ} (hr : Run S init h c) : P h c := by
  induction hr with
  | init hs => exact hinit _ hs
  | start i arg run unused admitted ih => exact hstart _ _ i arg run ih unused admitted
  | act i ans run call perform ih =>
    exact hact _ _ i _ _ _ _ ans _ run ih call (run.sat hbody call).1 perform
  | drift run moved ih => exact hdrift _ _ _ run ih moved

/-- What a run was at an earlier point of its history. -/
theorem Run.earlier {later h : History Op Ans Arg σ} {c : Config Op Ans Arg α σ}
    (hr : Run S init (later ++ h) c) : ∃ c', Run S init h c' := by
  induction later generalizing c with
  | nil => exact ⟨c, hr⟩
  | cons e later ih =>
    cases hr with
    | start _ _ run _ _ => exact ih run
    | act _ _ run _ _ => exact ih run
    | drift run _ => exact ih run

/-- A history determines the calls. -/
theorem Run.calls_eq {h : History Op Ans Arg σ} {c c' : Config Op Ans Arg α σ} (hr : Run S init h c)
    (hr' : Run S init h c') : c.calls = c'.calls := by
  induction hr generalizing c' with
  | init _ =>
    cases hr'
    rfl
  | start i arg _ _ _ ih =>
    generalize hs : Config.shared _ = s at hr'
    cases hr' with
    | start _ _ run _ _ => simp only [ih run]
  | act i ans _ call _ ih =>
    generalize hs : Config.shared _ = s at hr'
    cases hr' with
    | act _ _ run call' _ =>
      have hcalls := ih run
      rw [hcalls] at call
      cases Option.some.inj (call.symm.trans call')
      simp only [hcalls]
  | drift _ _ ih =>
    generalize hs : Config.shared _ = s at hr'
    cases hr' with
    | drift run _ =>
      have hcalls := ih run
      exact hcalls

/-- An exchange of a call at the moment at which it happened: `h'` and `c'` are
the history and the configuration it found, `s` the shared state it left. -/
structure ExchangeAt (S : System Op Ans Arg α σ) (init : σ → Prop) (h : History Op Ans Arg σ)
    (i : Nat) (arg : Arg) (tr : Trace Op Ans) (op : Op) (ans : Ans op)
    (h' : History Op Ans Arg σ) (c' : Config Op Ans Arg α σ) (s : σ) : Prop where
  history : ∃ later, h = later ++ (.act i op ans, c'.shared) :: h'
  run : Run S init h' c'
  call : ∃ next, c'.calls i = some ⟨arg, tr, .ask op next⟩
  perform : S.perform c'.shared op ans s

theorem ExchangeAt.cons {h h' : History Op Ans Arg σ} {i : Nat} {arg : Arg} {tr : Trace Op Ans}
    {op : Op} {ans : Ans op} {c' : Config Op Ans Arg α σ} {s : σ}
    (x : ExchangeAt S init h i arg tr op ans h' c' s) (e : Event Op Ans Arg × σ) :
    ExchangeAt S init (e :: h) i arg tr op ans h' c' s := by
  obtain ⟨later, hl⟩ := x.history
  exact ⟨⟨e :: later, by rw [hl]; rfl⟩, x.run, x.call, x.perform⟩

theorem ExchangeAt.mono {h₁ h h' : History Op Ans Arg σ} {i : Nat} {arg : Arg} {tr : Trace Op Ans}
    {op : Op} {ans : Ans op} {c' : Config Op Ans Arg α σ} {s : σ}
    (x : ExchangeAt S init h₁ i arg tr op ans h' c' s) (hle : h₁ <:+ h) :
    ExchangeAt S init h i arg tr op ans h' c' s := by
  obtain ⟨later, rfl⟩ := x.history
  obtain ⟨later', rfl⟩ := hle
  exact ⟨⟨later' ++ later, (List.append_assoc ..).symm⟩, x.run, x.call, x.perform⟩

/-- An exchange of a history is one of every part of it that is long enough. -/
theorem ExchangeAt.within {h₁ h h' : History Op Ans Arg σ} {i : Nat} {arg : Arg} {tr : Trace Op Ans}
    {op : Op} {ans : Ans op} {c' : Config Op Ans Arg α σ} {s : σ}
    (x : ExchangeAt S init h i arg tr op ans h' c' s) (hle : h₁ <:+ h) (hlt : h'.length < h₁.length) :
    ExchangeAt S init h₁ i arg tr op ans h' c' s := by
  obtain ⟨later, hl⟩ := x.history
  obtain ⟨later', hl'⟩ := List.suffix_of_suffix_length_le ⟨later, hl.symm⟩ hle hlt
  exact ⟨⟨later', hl'.symm⟩, x.run, x.call, x.perform⟩

theorem ExchangeAt.of_cons {e : Event Op Ans Arg × σ} {h h' : History Op Ans Arg σ} {i : Nat} {arg : Arg}
    {tr : Trace Op Ans} {op : Op} {ans : Ans op} {c' : Config Op Ans Arg α σ} {s : σ}
    (x : ExchangeAt S init (e :: h) i arg tr op ans h' c' s) :
    (e = (.act i op ans, c'.shared) ∧ h = h') ∨ ExchangeAt S init h i arg tr op ans h' c' s := by
  obtain ⟨later, hl⟩ := x.history
  cases later with
  | nil => exact Or.inl (List.cons.inj hl)
  | cons _ later => exact Or.inr ⟨⟨later, (List.cons.inj hl).2⟩, x.run, x.call, x.perform⟩

theorem ExchangeAt.past_suffix {h h' : History Op Ans Arg σ} {i : Nat} {arg : Arg} {tr : Trace Op Ans}
    {op : Op} {ans : Ans op} {c' : Config Op Ans Arg α σ} {s : σ}
    (x : ExchangeAt S init h i arg tr op ans h' c' s) : h' <:+ h := by
  obtain ⟨later, hl⟩ := x.history
  exact ⟨later ++ [_], by rw [hl, List.append_assoc]; rfl⟩

theorem ExchangeAt.mem {h h' : History Op Ans Arg σ} {i : Nat} {arg : Arg} {tr : Trace Op Ans}
    {op : Op} {ans : Ans op} {c' : Config Op Ans Arg α σ} {s : σ}
    (x : ExchangeAt S init h i arg tr op ans h' c' s) : (.act i op ans, c'.shared) ∈ h := by
  obtain ⟨later, hl⟩ := x.history
  simp [hl]

theorem ExchangeAt.past_subset {h h' : History Op Ans Arg σ} {i : Nat} {arg : Arg}
    {tr : Trace Op Ans} {op : Op} {ans : Ans op} {c' : Config Op Ans Arg α σ} {s : σ}
    (x : ExchangeAt S init h i arg tr op ans h' c' s) : h' ⊆ h := by
  obtain ⟨later, hl⟩ := x.history
  intro e he
  simp [hl, he]

/-- Every exchange in the trace of a call happened in the run. -/
theorem Run.exchange {h : History Op Ans Arg σ} {c : Config Op Ans Arg α σ} (hr : Run S init h c)
    {i : Nat} {call : Call Op Ans Arg α} (hc : c.calls i = some call) {recent tr : Trace Op Ans}
    {op : Op} {ans : Ans op} (htr : call.trace = recent ++ ⟨op, ans⟩ :: tr) :
    ∃ h' c' s, ExchangeAt S init h i call.arg tr op ans h' c' s := by
  induction hr generalizing i call recent with
  | init _ => simp at hc
  | start j arg _ _ _ ih =>
    rcases updated_call hc with ⟨rfl, rfl⟩ | ⟨_, hc⟩
    · simp at htr
    · obtain ⟨h', c', s, x⟩ := ih hc htr
      exact ⟨h', c', s, x.cons _⟩
  | @act h c j arg tr' op' next ans' s run hcall perform ih =>
    rcases updated_call hc with ⟨rfl, rfl⟩ | ⟨_, hc⟩
    · cases recent with
      | nil =>
        obtain ⟨hx, rfl⟩ := List.cons.inj htr
        cases hx
        exact ⟨h, c, s, ⟨[], rfl⟩, run, ⟨next, hcall⟩, perform⟩
      | cons y recent =>
        obtain ⟨h', c', s, x⟩ := ih hcall (List.cons.inj htr).2
        exact ⟨h', c', s, x.cons _⟩
    · obtain ⟨h', c', s, x⟩ := ih hc htr
      exact ⟨h', c', s, x.cons _⟩
  | drift _ _ ih =>
    obtain ⟨h', c', s, x⟩ := ih hc htr
    exact ⟨h', c', s, x.cons _⟩

/-- Every operation in a history was performed by a call. -/
theorem Run.performed {later h : History Op Ans Arg σ} {c : Config Op Ans Arg α σ} {i : Nat} {op : Op}
    {ans : Ans op} {s : σ} (hr : Run S init (later ++ (.act i op ans, s) :: h) c) :
    ∃ arg tr c' s', c'.shared = s ∧
      ExchangeAt S init (later ++ (.act i op ans, s) :: h) i arg tr op ans h c' s' := by
  obtain ⟨c₁, hrun⟩ := hr.earlier
  cases hrun with
  | act _ _ run call perform =>
    exact ⟨_, _, _, _, rfl, ⟨later, rfl⟩, run, ⟨_, call⟩, perform⟩

/-- The start of every call is in the history. -/
theorem Run.start_mem {h : History Op Ans Arg σ} {c : Config Op Ans Arg α σ} (hr : Run S init h c)
    {i : Nat} {call : Call Op Ans Arg α} (hc : c.calls i = some call) :
    ∃ s, (.start i call.arg, s) ∈ h := by
  induction hr generalizing i call with
  | init _ => simp at hc
  | start j arg _ _ _ ih =>
    rcases updated_call hc with ⟨rfl, rfl⟩ | ⟨_, hc⟩
    · exact ⟨_, List.mem_cons_self⟩
    · obtain ⟨s, hs⟩ := ih hc
      exact ⟨s, List.mem_cons_of_mem _ hs⟩
  | act j ans _ hcall _ ih =>
    rcases updated_call hc with ⟨rfl, rfl⟩ | ⟨_, hc⟩
    · obtain ⟨s, hs⟩ := ih hcall
      exact ⟨s, List.mem_cons_of_mem _ hs⟩
    · obtain ⟨s, hs⟩ := ih hc
      exact ⟨s, List.mem_cons_of_mem _ hs⟩
  | drift _ _ ih =>
    obtain ⟨s, hs⟩ := ih hc
    exact ⟨s, List.mem_cons_of_mem _ hs⟩

/-- A call keeps the arguments it was started with. -/
theorem Run.arg_of_start {h : History Op Ans Arg σ} {c : Config Op Ans Arg α σ} (hr : Run S init h c)
    {i : Nat} {arg : Arg} {s : σ} (hs : (.start i arg, s) ∈ h) :
    ∃ call, c.calls i = some call ∧ call.arg = arg := by
  induction hr with
  | init _ => simp at hs
  | start j arg' _ unused _ ih =>
    rcases List.mem_cons.mp hs with heq | hs
    · obtain ⟨rfl, rfl⟩ := Event.start.inj (Prod.mk.inj heq).1
      exact ⟨_, Function.update_self .., rfl⟩
    · obtain ⟨call, hc, ha⟩ := ih hs
      have hne : i ≠ j := fun he => by rw [he, unused] at hc; simp at hc
      exact ⟨call, by simp only [Function.update_of_ne hne, hc], ha⟩
  | act j ans _ hcall _ ih =>
    obtain ⟨call, hc, ha⟩ := ih (List.mem_of_ne_of_mem (by simp) hs)
    by_cases hij : i = j
    · subst hij
      obtain rfl := Option.some.inj (hcall.symm.trans hc)
      exact ⟨_, Function.update_self .., ha⟩
    · exact ⟨call, by simp only [Function.update_of_ne hij, hc], ha⟩
  | drift _ _ ih => exact ih (List.mem_of_ne_of_mem (by simp) hs)

/-- No call is started twice. -/
theorem Run.start_once {later past : History Op Ans Arg σ} {c : Config Op Ans Arg α σ}
    (hr : Run S init (later ++ past) c) {i : Nat} {arg arg' : Arg} {s s' : σ}
    (hs : (.start i arg, s) ∈ later) (hs' : (.start i arg', s') ∈ past) : False := by
  obtain ⟨recent, between, rfl⟩ := List.append_of_mem hs
  rw [List.append_assoc] at hr
  obtain ⟨_, hr⟩ := hr.earlier
  cases hr with
  | start _ _ run unused _ =>
    obtain ⟨_, hc, _⟩ := run.arg_of_start (List.mem_append_right between hs')
    rw [unused] at hc
    simp at hc

/-- What a call does that was started within a part of a history lies within that
part. -/
theorem ExchangeAt.after {later past h' : History Op Ans Arg σ} {c c' : Config Op Ans Arg α σ}
    (hr : Run S init (later ++ past) c) {i : Nat} {arg arg' : Arg} {s₀ s : σ} {tr : Trace Op Ans} {op : Op}
    {ans : Ans op} (hs : (.start i arg', s₀) ∈ later)
    (x : ExchangeAt S init (later ++ past) i arg tr op ans h' c' s) : ∃ later', h' = later' ++ past ∧ later' ⊆ later := by
  rcases List.suffix_or_suffix_of_suffix x.past_suffix (List.suffix_append later past) with hle | ⟨later', rfl⟩
  · obtain ⟨_, hcall⟩ := x.call
    obtain ⟨_, hmem⟩ := x.run.start_mem hcall
    exact (hr.start_once hs (hle.subset hmem)).elim
  · obtain ⟨recent, hrecent⟩ := x.past_suffix
    rw [← List.append_assoc] at hrecent
    have hlater : recent ++ later' = later := List.append_cancel_right hrecent
    exact ⟨later', rfl, fun e he => hlater ▸ List.mem_append_right recent he⟩

/-- An operation in a history, as an exchange of a call of the run. -/
theorem Run.exchange_of_event {h past : History Op Ans Arg σ} {c : Config Op Ans Arg α σ}
    (hr : Run S init h c) {i : Nat} {op : Op} {ans : Ans op} {s : σ}
    (he : (.act i op ans, s) :: past <:+ h) {call : Call Op Ans Arg α} (hc : c.calls i = some call) :
    ∃ tr c' s', c'.shared = s ∧ ExchangeAt S init h i call.arg tr op ans past c' s' := by
  obtain ⟨later, rfl⟩ := he
  obtain ⟨arg, tr, c', s', hs, x⟩ := hr.performed
  obtain ⟨next, hcall⟩ := x.call
  obtain ⟨s₀, hstart⟩ := x.run.start_mem hcall
  obtain ⟨call', hc', harg⟩ := hr.arg_of_start (x.past_subset hstart)
  obtain rfl := Option.some.inj (hc'.symm.trans hc)
  exact ⟨tr, c', s', hs, harg ▸ x⟩

theorem ExchangeAt.permitted (hbody : ∀ arg, Sat (G arg) (Q arg) [] (S.body arg))
    {h h' : History Op Ans Arg σ} {i : Nat} {arg : Arg} {tr : Trace Op Ans} {op : Op} {ans : Ans op}
    {c' : Config Op Ans Arg α σ} {s : σ} (x : ExchangeAt S init h i arg tr op ans h' c' s) :
    G arg tr op := by
  obtain ⟨next, hc⟩ := x.call
  exact (x.run.sat hbody hc).1

end Interleaving
