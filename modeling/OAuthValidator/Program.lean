import Mathlib.Logic.Function.Basic

/-! Programs that act on the world only through operations with answers. A
program is judged by what it may ask after the exchanges it has already had,
and by what it may return. Traces are written with the newest exchange first. -/

namespace Program

universe u v w

/-- A program that performs operations `op : Op`, each answered in `Ans op`. -/
inductive Prog (Op : Type u) (Ans : Op → Type v) (α : Type w)
  | ret (value : α)
  | ask (op : Op) (next : Ans op → Prog Op Ans α)

abbrev Exchange (Op : Type u) (Ans : Op → Type v) := Σ op : Op, Ans op

abbrev Trace (Op : Type u) (Ans : Op → Type v) := List (Exchange Op Ans)

variable {Op : Type u} {Ans : Op → Type v} {α β : Type w}

def Prog.bind (p : Prog Op Ans α) (f : α → Prog Op Ans β) : Prog Op Ans β :=
  match p with
  | .ret a => f a
  | .ask op next => .ask op fun ans => (next ans).bind f

theorem Prog.bind_assoc {γ : Type w} (p : Prog Op Ans α) (f : α → Prog Op Ans β)
    (g : β → Prog Op Ans γ) : (p.bind f).bind g = p.bind fun a => (f a).bind g := by
  induction p with
  | ret a => rfl
  | ask op next ih => simp only [Prog.bind, ih]

/-- After the exchanges of a trace, every operation the program asks for is
permitted and every value it returns is as promised. -/
def Sat (G : Trace Op Ans → Op → Prop) (Q : Trace Op Ans → α → Prop) :
    Trace Op Ans → Prog Op Ans α → Prop
  | tr, .ret a => Q tr a
  | tr, .ask op next => G tr op ∧ ∀ ans, Sat G Q (⟨op, ans⟩ :: tr) (next ans)

variable {G : Trace Op Ans → Op → Prop} {Q : Trace Op Ans → α → Prop}
  {R : Trace Op Ans → β → Prop} {tr tr' : Trace Op Ans} {p : Prog Op Ans α}

theorem Sat.bind {f : α → Prog Op Ans β} (h : Sat G Q tr p)
    (hf : ∀ tr a, Q tr a → Sat G R tr (f a)) : Sat G R tr (p.bind f) := by
  induction p generalizing tr with
  | ret a => exact hf tr a h
  | ask op next ih => exact ⟨h.1, fun ans => ih ans (h.2 ans)⟩

theorem Sat.mono {G' : Trace Op Ans → Op → Prop} {Q' : Trace Op Ans → α → Prop}
    (h : Sat G Q tr p) (hG : ∀ tr op, G tr op → G' tr op) (hQ : ∀ tr a, Q tr a → Q' tr a) :
    Sat G' Q' tr p := by
  induction p generalizing tr with
  | ret a => exact hQ tr a h
  | ask op next ih => exact ⟨hG tr op h.1, fun ans => ih ans (h.2 ans)⟩

/-- An execution to the end, under whatever answers its operations got. -/
inductive Exec : Trace Op Ans → Prog Op Ans α → Trace Op Ans → α → Prop
  | ret {tr : Trace Op Ans} {a : α} : Exec tr (.ret a) tr a
  | ask {tr tr' : Trace Op Ans} {op : Op} {next : Ans op → Prog Op Ans α} {a : α} (ans : Ans op)
      (h : Exec (⟨op, ans⟩ :: tr) (next ans) tr' a) : Exec tr (.ask op next) tr' a

/-- The execution in which the operations are answered in a given way. -/
def Prog.play (answer : Trace Op Ans → (op : Op) → Ans op) : Prog Op Ans α → Trace Op Ans → Trace Op Ans × α
  | .ret a, tr => (tr, a)
  | .ask op next, tr => (next (answer tr op)).play answer (⟨op, answer tr op⟩ :: tr)

theorem Prog.play_exec (answer : Trace Op Ans → (op : Op) → Ans op) (p : Prog Op Ans α)
    (tr : Trace Op Ans) : Exec tr p (p.play answer tr).1 (p.play answer tr).2 := by
  induction p generalizing tr with
  | ret a => exact .ret
  | ask op next ih => exact .ask (answer tr op) (ih (answer tr op) _)

/-- What an execution returns is as promised. -/
theorem Sat.of_exec {a : α} (h : Sat G Q tr p) (he : Exec tr p tr' a) : Q tr' a := by
  induction he with
  | ret => exact h
  | ask ans _ ih => exact ih (h.2 ans)

theorem Exec.suffix {a : α} (h : Exec tr p tr' a) : tr <:+ tr' := by
  induction h with
  | ret => exact List.suffix_rfl
  | ask ans _ ih => exact (List.suffix_cons _ _).trans ih

/-- The exchanges determine what is returned. -/
theorem Exec.unique {a b : α} (h : Exec tr p tr' a) (h' : Exec tr p tr' b) : a = b := by
  induction h with
  | ret =>
    obtain ⟨⟩ := h'
    rfl
  | ask ans hnext ih =>
    obtain _ | ⟨ans', hnext'⟩ := h'
    have heq := (List.suffix_of_suffix_length_le hnext.suffix hnext'.suffix (by simp)).eq_of_length (by simp)
    obtain rfl : ans = ans' := by simpa using heq
    exact ih hnext'

theorem Exec.of_bind_ret {f : α → β} {b : β} (h : Exec tr (p.bind fun a => .ret (f a)) tr' b) :
    ∃ a, Exec tr p tr' a ∧ f a = b := by
  induction p generalizing tr with
  | ret a =>
    obtain ⟨⟩ := h
    exact ⟨a, .ret, rfl⟩
  | ask op next ih =>
    obtain _ | ⟨ans, hnext⟩ := h
    obtain ⟨a, ha, hb⟩ := ih ans hnext
    exact ⟨a, .ask ans ha, hb⟩

/-- Every operation of an execution was permitted when it was asked for. -/
theorem Sat.of_suffix {a : α} {op : Op} {ans : Ans op} {older : Trace Op Ans} (h : Sat G Q tr p)
    (he : Exec tr p tr' a) (hop : ⟨op, ans⟩ :: older <:+ tr') :
    ⟨op, ans⟩ :: older <:+ tr ∨ G older op := by
  induction he with
  | ret => exact Or.inl hop
  | @ask tr _ op' next _ ans' _ ih =>
    rcases ih (h.2 ans') hop with hsuffix | hG
    · rcases List.suffix_cons_iff.mp hsuffix with heq | hold
      · obtain ⟨hexchange, rfl⟩ := List.cons.inj heq
        obtain ⟨rfl, -⟩ := Sigma.mk.inj hexchange
        exact Or.inr h.1
      · exact Or.inl hold
    · exact Or.inr hG

/-! Executions that nothing interrupts, on a state that the operations act on. -/

section Solo

variable {σ : Type*} {perform : σ → (op : Op) → Ans op → σ → Prop}

inductive Solo (perform : σ → (op : Op) → Ans op → σ → Prop) : σ → Prog Op Ans α → σ → α → Prop
  | ret {s : σ} {a : α} : Solo perform s (.ret a) s a
  | ask {s s₁ s' : σ} {op : Op} {next : Ans op → Prog Op Ans α} {a : α} (ans : Ans op)
      (act : perform s op ans s₁) (rest : Solo perform s₁ (next ans) s' a) :
      Solo perform s (.ask op next) s' a

theorem Solo.of_bind_ret {s s' : σ} {p : Prog Op Ans α} {f : α → β} {b : β}
    (h : Solo perform s (p.bind fun a => .ret (f a)) s' b) : ∃ a, Solo perform s p s' a ∧ f a = b := by
  induction p generalizing s with
  | ret a =>
    obtain ⟨⟩ := h
    exact ⟨a, .ret, rfl⟩
  | ask op next ih =>
    obtain _ | ⟨ans, act, rest⟩ := h
    obtain ⟨a, ha, hb⟩ := ih ans rest
    exact ⟨a, .ask ans act ha, hb⟩

/-- Every uninterrupted execution ends as promised. -/
def Ensures (perform : σ → (op : Op) → Ans op → σ → Prop) (Q : α → σ → Prop) :
    σ → Prog Op Ans α → Prop
  | s, .ret a => Q a s
  | s, .ask op next => ∀ ans s', perform s op ans s' → Ensures perform Q s' (next ans)

theorem Ensures.of_solo {Q : α → σ → Prop} {s s' : σ} {p : Prog Op Ans α} {a : α}
    (h : Ensures perform Q s p) (hr : Solo perform s p s' a) : Q a s' := by
  induction hr with
  | ret => exact h
  | ask ans act _ ih => exact ih (h ans _ act)

/-- An uninterrupted execution with the exchanges it has had. -/
inductive Traced (perform : σ → (op : Op) → Ans op → σ → Prop) :
    σ → Trace Op Ans → Prog Op Ans α → σ → Trace Op Ans → α → Prop
  | ret {s : σ} {tr : Trace Op Ans} {a : α} : Traced perform s tr (.ret a) s tr a
  | ask {s s₁ s' : σ} {tr tr' : Trace Op Ans} {op : Op} {next : Ans op → Prog Op Ans α} {a : α}
      (ans : Ans op) (act : perform s op ans s₁)
      (rest : Traced perform s₁ (⟨op, ans⟩ :: tr) (next ans) s' tr' a) :
      Traced perform s tr (.ask op next) s' tr' a

theorem Solo.traced {s s' : σ} {p : Prog Op Ans α} {a : α} (h : Solo perform s p s' a)
    (tr : Trace Op Ans) : ∃ tr', Traced perform s tr p s' tr' a := by
  induction h generalizing tr with
  | ret => exact ⟨tr, .ret⟩
  | ask ans act _ ih =>
    obtain ⟨tr', hrest⟩ := ih (⟨_, ans⟩ :: tr)
    exact ⟨tr', .ask ans act hrest⟩

theorem Traced.exec {s s' : σ} {p : Prog Op Ans α} {tr tr' : Trace Op Ans} {a : α}
    (h : Traced perform s tr p s' tr' a) : Exec tr p tr' a := by
  induction h with
  | ret => exact .ret
  | ask ans _ _ ih => exact .ask ans ih

/-- What a program does does not depend on how its result is used. -/
theorem Traced.bind_ret_iff {s s' : σ} {p : Prog Op Ans α} {tr tr' : Trace Op Ans} {f : α → β} {b : β} :
    Traced perform s tr (p.bind fun a => .ret (f a)) s' tr' b ↔
      ∃ a, Traced perform s tr p s' tr' a ∧ f a = b := by
  induction p generalizing s tr with
  | ret a =>
    constructor
    · rintro ⟨⟩
      exact ⟨a, .ret, rfl⟩
    · rintro ⟨_, ⟨⟩, rfl⟩
      exact .ret
  | ask op next ih =>
    constructor
    · rintro (_ | ⟨ans, act, rest⟩)
      obtain ⟨a, hrest, hb⟩ := (ih ans).mp rest
      exact ⟨a, .ask ans act hrest, hb⟩
    · rintro ⟨a, _ | ⟨ans, act, rest⟩, hb⟩
      exact .ask ans act ((ih ans).mpr ⟨a, rest, hb⟩)

end Solo

end Program
