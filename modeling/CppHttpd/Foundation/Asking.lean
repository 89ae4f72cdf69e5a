import Mathlib.Data.List.Basic

/-!
# Programs that ask

A program acts, and asks for answers.  It is run on a list of answers; where they
end it waits for the next one, so that a run that has come this far is a run too.
-/

namespace CppHttpd.Foundation

/-- What is done, and what is returned with the answers that are left. -/
def Asking (A E α : Type) := List A → List E × Option (α × List A)

namespace Asking

variable {A E α β σ : Type}

instance : Monad (Asking A E) where
  pure x := fun answers => ([], some (x, answers))
  bind p f := fun answers =>
    match p answers with
    | (log, none) => (log, none)
    | (log, some (x, rest)) => (log ++ (f x rest).1, (f x rest).2)

def act (e : E) : Asking A E Unit := fun answers => ([e], some ((), answers))

/-- The next answer, as `read` understands it; one that it does not is none. -/
def ask (read : A → Option α) : Asking A E α
  | [] => ([], none)
  | a :: rest => ([], (read a).map (·, rest))

def wait : Asking A E α := fun _ => ([], none)

def iterate (body : σ → Asking A E (σ ⊕ α)) : Nat → σ → Asking A E α
  | 0, _ => wait
  | n + 1, s => do
      match ← body s with
      | .inl s => iterate body n s
      | .inr x => pure x

/-- A loop, left with a value of the second kind. -/
def loop (body : σ → Asking A E (σ ⊕ α)) (s : σ) : Asking A E α :=
  fun answers => iterate body (answers.length + 1) s answers

/-! ## What a program does -/

@[simp] theorem pure_run (x : α) (answers : List A) :
    (pure x : Asking A E α) answers = ([], some (x, answers)) := rfl

@[simp] theorem act_run (e : E) (answers : List A) :
    (act e : Asking A E Unit) answers = ([e], some ((), answers)) := rfl

theorem ask_cons (read : A → Option α) (a : A) (rest : List A) :
    (ask read : Asking A E α) (a :: rest) = ([], (read a).map (·, rest)) := rfl

theorem bind_log (p : Asking A E α) (f : α → Asking A E β) (answers : List A) :
    ((p >>= f) answers).1 =
      (p answers).1 ++ ((p answers).2.elim [] fun r => (f r.1 r.2).1) := by
  change (match p answers with
    | (log, none) => (log, none)
    | (log, some (x, rest)) => (log ++ (f x rest).1, (f x rest).2)).1 = _
  rcases p answers with ⟨log, _ | ⟨x, rest⟩⟩
  · exact (List.append_nil log).symm
  · rfl

theorem bind_result (p : Asking A E α) (f : α → Asking A E β) (answers : List A) :
    ((p >>= f) answers).2 = (p answers).2.bind fun r => (f r.1 r.2).2 := by
  change (match p answers with
    | (log, none) => (log, none)
    | (log, some (x, rest)) => (log ++ (f x rest).1, (f x rest).2)).2 = _
  rcases p answers with ⟨log, _ | ⟨x, rest⟩⟩ <;> rfl

theorem bind_of_eq {p : Asking A E α} {f : α → Asking A E β} {answers rest : List A}
    {log : List E} {x : α} (h : p answers = (log, some (x, rest))) :
    (p >>= f) answers = (log ++ (f x rest).1, (f x rest).2) := by
  apply Prod.ext
  · rw [bind_log, h]
    rfl
  · rw [bind_result, h]
    rfl

theorem bind_of_waiting {p : Asking A E α} {f : α → Asking A E β} {answers : List A}
    {log : List E} (h : p answers = (log, none)) : (p >>= f) answers = (log, none) := by
  apply Prod.ext
  · rw [bind_log, h]
    exact List.append_nil log
  · rw [bind_result, h]
    rfl

theorem mem_bind_log {p : Asking A E α} {f : α → Asking A E β} {answers : List A} {e : E} :
    e ∈ ((p >>= f) answers).1 ↔ e ∈ (p answers).1 ∨
      ∃ x rest, (p answers).2 = some (x, rest) ∧ e ∈ (f x rest).1 := by
  rw [bind_log, List.mem_append]
  apply or_congr_right
  cases (p answers).2 with
  | none => simp
  | some r =>
      constructor
      · exact fun hmem => ⟨r.1, r.2, rfl, hmem⟩
      · rintro ⟨x, rest, ⟨⟩, hmem⟩
        exact hmem

/-- Everything the program does, on any answers, is `P`. -/
def Logs (P : E → Prop) (p : Asking A E α) : Prop := ∀ answers, ∀ e ∈ (p answers).1, P e

section Logs

variable {P : E → Prop}

theorem Logs.pure (x : α) : Logs P (pure x : Asking A E α) := by
  rintro answers e ⟨⟩

theorem Logs.act {e : E} (he : P e) : Logs P (act e : Asking A E Unit) := by
  intro answers e' hmem
  rw [act_run, List.mem_singleton] at hmem
  exact hmem ▸ he

theorem Logs.ask (read : A → Option α) : Logs P (ask read : Asking A E α) := by
  intro answers e hmem
  cases answers <;> cases hmem

theorem Logs.bind {p : Asking A E α} {f : α → Asking A E β} (hp : Logs P p)
    (hf : ∀ x, Logs P (f x)) : Logs P (p >>= f) := by
  intro answers e hmem
  rcases mem_bind_log.1 hmem with hmem | ⟨x, rest, -, hmem⟩
  · exact hp answers e hmem
  · exact hf x rest e hmem

theorem Logs.iterate {body : σ → Asking A E (σ ⊕ α)} (hbody : ∀ s, Logs P (body s)) (n : Nat)
    (s : σ) : Logs P (iterate body n s) := by
  induction n generalizing s with
  | zero => rintro answers e ⟨⟩
  | succ n ih =>
      apply (hbody s).bind
      intro r
      cases r with
      | inl s => exact ih s
      | inr x => exact .pure x

theorem Logs.loop {body : σ → Asking A E (σ ⊕ α)} (hbody : ∀ s, Logs P (body s)) (s : σ) :
    Logs P (loop body s) :=
  fun answers => Logs.iterate hbody _ s answers

end Logs

/-- Whatever the program returns is `P`. -/
def Returns (P : α → Prop) (p : Asking A E α) : Prop :=
  ∀ answers x rest, (p answers).2 = some (x, rest) → P x

theorem Returns.pure {P : α → Prop} {x : α} (hx : P x) :
    Returns P (pure x : Asking A E α) := by
  rintro answers y rest ⟨⟩
  exact hx

theorem Returns.bind {P : β → Prop} {p : Asking A E α} {f : α → Asking A E β}
    (hf : ∀ x, Returns P (f x)) : Returns P (p >>= f) := by
  intro answers y rest hresult
  rw [bind_result] at hresult
  obtain ⟨⟨x, mid⟩, -, hsecond⟩ := Option.bind_eq_some_iff.1 hresult
  exact hf x mid y rest hsecond

/-! ## How far a program has come -/

theorem bind_assoc {γ : Type} (p : Asking A E α) (f : α → Asking A E β)
    (g : β → Asking A E γ) : (p >>= f) >>= g = p >>= fun x => f x >>= g := by
  funext answers
  rcases hp : p answers with ⟨log, _ | ⟨x, rest⟩⟩
  · rw [bind_of_waiting (bind_of_waiting hp), bind_of_waiting hp]
  · rcases hf : f x rest with ⟨log', _ | ⟨y, rest'⟩⟩
    · have hfirst : (p >>= f) answers = (log ++ log', none) := by rw [bind_of_eq hp, hf]
      rw [bind_of_waiting hfirst, bind_of_eq hp, bind_of_waiting hf]
    · have hfirst : (p >>= f) answers = (log ++ log', some (y, rest')) := by
        rw [bind_of_eq hp, hf]
      rw [bind_of_eq hfirst, bind_of_eq hp, bind_of_eq hf, List.append_assoc]

/-- With these answers, the first program has come to where it goes on as the second. -/
def ComesTo (p : Asking A E α) (taken : List A) (q : Asking A E α) : Prop :=
  ∃ log, ∀ rest, p (taken ++ rest) = (log ++ (q rest).1, (q rest).2)

section ComesTo

variable {p q r : Asking A E α} {taken taken' : List A}

theorem ComesTo.refl (p : Asking A E α) : ComesTo p [] p := ⟨[], fun _ => rfl⟩

theorem ComesTo.trans (h : ComesTo p taken q) (h' : ComesTo q taken' r) :
    ComesTo p (taken ++ taken') r := by
  obtain ⟨log, hp⟩ := h
  obtain ⟨log', hq⟩ := h'
  refine ⟨log ++ log', fun rest => ?_⟩
  rw [List.append_assoc, hp, hq, List.append_assoc]

theorem ComesTo.bind (h : ComesTo p taken q) (f : α → Asking A E β) :
    ComesTo (p >>= f) taken (q >>= f) := by
  obtain ⟨log, hp⟩ := h
  refine ⟨log, fun rest => ?_⟩
  rcases hq : q rest with ⟨log', _ | ⟨x, rest'⟩⟩
  · have hwaits : p (taken ++ rest) = (log ++ log', none) := by rw [hp, hq]
    rw [bind_of_waiting hwaits, bind_of_waiting hq]
  · have hreturns : p (taken ++ rest) = (log ++ log', some (x, rest')) := by rw [hp, hq]
    rw [bind_of_eq hreturns, bind_of_eq hq, List.append_assoc]

theorem ComesTo.ask {read : A → Option β} {a : A} {x : β} (hread : read a = some x)
    {f : β → Asking A E α} (h : ComesTo (f x) taken q) :
    ComesTo (Asking.ask read >>= f) (a :: taken) q := by
  obtain ⟨log, hf⟩ := h
  refine ⟨log, fun rest => ?_⟩
  have hask : (Asking.ask read : Asking A E β) (a :: (taken ++ rest)) =
      ([], some (x, taken ++ rest)) := by
    rw [ask_cons, hread]
    rfl
  rw [List.cons_append, bind_of_eq hask, List.nil_append, hf]

theorem ComesTo.act {e : E} {f : Unit → Asking A E α} (h : ComesTo (f ()) taken q) :
    ComesTo (Asking.act e >>= f) taken q := by
  obtain ⟨log, hf⟩ := h
  refine ⟨e :: log, fun rest => ?_⟩
  rw [bind_of_eq (act_run e _), hf]
  rfl

/-- The program has returned. -/
theorem ComesTo.returned {x : α} (h : ComesTo p taken (pure x)) :
    ∃ log, p taken = (log, some (x, [])) := by
  obtain ⟨log, hp⟩ := h
  have hlast := hp []
  rw [List.append_nil] at hlast
  exact ⟨_, hlast⟩

end ComesTo

/-! ## Loops that ask -/

theorem bind_congr {p : Asking A E α} {f g : α → Asking A E β} {answers : List A}
    (h : ∀ x rest, (p answers).2 = some (x, rest) → f x rest = g x rest) :
    (p >>= f) answers = (p >>= g) answers := by
  cases hp : (p answers).2 with
  | none => rw [bind_of_waiting (Prod.ext rfl hp), bind_of_waiting (Prod.ext rfl hp)]
  | some r => rw [bind_of_eq (Prod.ext rfl hp), bind_of_eq (Prod.ext rfl hp), h _ _ hp]

/-- Whenever it returns, the program has taken so many answers. -/
def Takes (n : Nat) (p : Asking A E α) : Prop :=
  ∀ answers x rest, (p answers).2 = some (x, rest) → rest.length + n ≤ answers.length

theorem Takes.pure (x : α) : Takes 0 (pure x : Asking A E α) := by
  rintro answers y rest ⟨⟩
  exact Nat.le_refl _

theorem Takes.ask (read : A → Option α) : Takes 1 (ask read : Asking A E α) := by
  intro answers x rest hresult
  cases answers with
  | nil => cases hresult
  | cons a answers =>
      obtain ⟨x', -, hx⟩ := Option.map_eq_some_iff.1 hresult
      cases hx
      exact Nat.le_refl _

theorem Takes.zero {n : Nat} {p : Asking A E α} (hp : Takes n p) : Takes 0 p := by
  intro answers x rest hresult
  have htaken := hp answers x rest hresult
  omega

/-- What the first program takes is taken, if the second gives none back. -/
theorem Takes.bind {n : Nat} {p : Asking A E α} {f : α → Asking A E β} (hp : Takes n p)
    (hf : ∀ x, Takes 0 (f x)) : Takes n (p >>= f) := by
  intro answers y rest hresult
  rw [bind_result] at hresult
  obtain ⟨⟨x, mid⟩, hfirst, hsecond⟩ := Option.bind_eq_some_iff.1 hresult
  have htaken := hp answers x mid hfirst
  have htaken' := hf x mid y rest hsecond
  omega

theorem Takes.act_bind {n : Nat} {e : E} {f : Unit → Asking A E β} (hf : Takes n (f ())) :
    Takes n (Asking.act e >>= f) := by
  intro answers y rest hresult
  rw [bind_result] at hresult
  exact hf answers y rest hresult

/-- Every turn after which the loop goes on has asked for something. -/
def Asks (body : σ → Asking A E (σ ⊕ α)) : Prop :=
  ∀ s answers s' rest, (body s answers).2 = some (.inl s', rest) → rest.length < answers.length

theorem iterate_eq_of_lt {body : σ → Asking A E (σ ⊕ α)} (hasks : Asks body) {n m : Nat} {s : σ}
    {answers : List A} (hn : answers.length < n) (hm : answers.length < m) :
    iterate body n s answers = iterate body m s answers := by
  induction n generalizing m s answers with
  | zero => omega
  | succ n ih =>
      cases m with
      | zero => omega
      | succ m =>
          apply bind_congr
          intro r rest hr
          cases r with
          | inl s' =>
              have hlt := hasks s answers s' rest hr
              exact ih (by omega) (by omega)
          | inr x => rfl

/-- The bound on the turns of a loop is never reached. -/
theorem loop_eq {body : σ → Asking A E (σ ⊕ α)} (hasks : Asks body) (s : σ) :
    loop body s = body s >>= Sum.elim (loop body) pure := by
  funext answers
  apply bind_congr
  intro r rest hr
  cases r with
  | inl s' => exact iterate_eq_of_lt hasks (hasks s answers s' rest hr) (Nat.lt_succ_self _)
  | inr x => rfl

end Asking

end CppHttpd.Foundation
