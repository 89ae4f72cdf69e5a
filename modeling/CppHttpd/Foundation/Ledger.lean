import CppHttpd.Foundation.Asking
import Mathlib.Algebra.BigOperators.Group.List.Basic
import Mathlib.Algebra.Order.Group.Multiset

/-!
# Accounts of resources

Each event may acquire and release handles, and use handles that it does not
release.  A log is replayed from what is held; no event of it uses or releases
what is not.  What a program does is stated for the handles it is about, and
holds whatever else is held.
-/

namespace CppHttpd.Foundation

structure Ledger (E H : Type) where
  acquires : E → Multiset H := fun _ => 0
  releases : E → Multiset H := fun _ => 0
  uses : E → Multiset H := fun _ => 0

namespace Ledger

variable {A E H α β σ : Type} (L : Ledger E H)

/-- An event is possible, and leads from what was held to what is then. -/
structure Moves (held : Multiset H) (e : E) (held' : Multiset H) : Prop where
  balance : held + L.acquires e = held' + L.releases e
  owns : L.releases e ≤ held
  uses : L.uses e ≤ held

inductive Replays : Multiset H → List E → Multiset H → Prop
  | nil (held : Multiset H) : Replays held [] held
  | cons {held mid held' : Multiset H} {e : E} {log : List E} (hmoves : L.Moves held e mid)
      (hrest : Replays mid log held') : Replays held (e :: log) held'

def acquired (log : List E) : Multiset H := (log.map L.acquires).sum

def released (log : List E) : Multiset H := (log.map L.releases).sum

variable {L} {held mid held' : Multiset H} {e : E} {log log' : List E} {h : H}

@[simp] theorem acquired_nil : L.acquired [] = 0 := rfl

@[simp] theorem acquired_cons : L.acquired (e :: log) = L.acquires e + L.acquired log := by
  simp [acquired]

@[simp] theorem acquired_append :
    L.acquired (log ++ log') = L.acquired log + L.acquired log' := by
  simp [acquired]

@[simp] theorem released_cons : L.released (e :: log) = L.releases e + L.released log := by
  simp [released]

theorem mem_acquired (he : e ∈ log) (hh : h ∈ L.acquires e) : h ∈ L.acquired log := by
  induction log with
  | nil => cases he
  | cons e₁ log ih =>
      rw [acquired_cons, Multiset.mem_add]
      rcases List.mem_cons.1 he with rfl | he
      · exact .inl hh
      · exact .inr (ih he)

theorem acquired_eq_zero (hlog : ∀ e ∈ log, L.acquires e = 0) : L.acquired log = 0 := by
  induction log with
  | nil => rfl
  | cons e log ih =>
      rw [List.forall_mem_cons] at hlog
      rw [acquired_cons, hlog.1, ih hlog.2, add_zero]

/-- The events that release a handle are counted. -/
theorem count_released [DecidableEq H] (h : H) (releases : E → Bool)
    (hcount : ∀ e, (L.releases e).count h = if releases e = true then 1 else 0) (log : List E) :
    (L.released log).count h = log.countP releases := by
  induction log with
  | nil => rfl
  | cons e log ih =>
      rw [released_cons, Multiset.count_add, hcount, ih, List.countP_cons, add_comm]

/-! ## Replaying -/

theorem Moves.frame (hm : L.Moves held e held') (frame : Multiset H) :
    L.Moves (held + frame) e (held' + frame) where
  balance := by rw [add_right_comm, hm.balance, add_right_comm]
  owns := hm.owns.trans (Multiset.le_add_right _ _)
  uses := hm.uses.trans (Multiset.le_add_right _ _)

theorem Replays.single (hm : L.Moves held e held') : L.Replays held [e] held' :=
  .cons hm (.nil _)

theorem Replays.append (hl : L.Replays held log mid) (hr : L.Replays mid log' held') :
    L.Replays held (log ++ log') held' := by
  induction hl with
  | nil => exact hr
  | cons hm _ ih => exact .cons hm (ih hr)

theorem Replays.frame (hl : L.Replays held log held') (frame : Multiset H) :
    L.Replays (held + frame) log (held' + frame) := by
  induction hl with
  | nil => exact .nil _
  | cons hm _ ih => exact .cons (hm.frame frame) ih

theorem Replays.split (hl : L.Replays held (log ++ log') held') :
    ∃ mid, L.Replays held log mid ∧ L.Replays mid log' held' := by
  induction log generalizing held with
  | nil => exact ⟨held, .nil _, hl⟩
  | cons e log ih =>
      cases hl with
      | cons hm hrest =>
          obtain ⟨mid, hleft, hright⟩ := ih hrest
          exact ⟨mid, .cons hm hleft, hright⟩

/-- What was held and acquired is what was released and is held. -/
theorem Replays.balance (hl : L.Replays held log held') :
    held + L.acquired log = held' + L.released log := by
  induction hl with
  | nil => rfl
  | @cons held mid held' e log hm _ ih =>
      calc held + L.acquired (e :: log)
          = held + L.acquires e + L.acquired log := by rw [acquired_cons, add_assoc]
        _ = mid + L.acquired log + L.releases e := by rw [hm.balance, add_right_comm]
        _ = held' + L.released (e :: log) := by
            rw [ih, released_cons, add_assoc, add_comm (L.released log)]

/-- Everything that was acquired was released, as often. -/
theorem Replays.released_eq (hl : L.Replays 0 log 0) : L.released log = L.acquired log := by
  simpa using hl.balance.symm

/-- What is not held, and is not acquired, is neither used nor released. -/
theorem Replays.untouched (hl : L.Replays held log held') (hheld : h ∉ held)
    (hacquired : h ∉ L.acquired log) (he : e ∈ log) : h ∉ L.uses e ∧ h ∉ L.releases e := by
  induction hl with
  | nil => cases he
  | @cons held mid held' e₁ log hm _ ih =>
      rw [acquired_cons, Multiset.mem_add, not_or] at hacquired
      rcases List.mem_cons.1 he with rfl | he
      · exact ⟨fun hmem => hheld (Multiset.mem_of_le hm.uses hmem),
          fun hmem => hheld (Multiset.mem_of_le hm.owns hmem)⟩
      · apply ih _ hacquired.2 he
        intro hmid
        have hmem : h ∈ held + L.acquires e₁ := by
          rw [hm.balance]
          exact Multiset.mem_add.2 (.inl hmid)
        rcases Multiset.mem_add.1 hmem with hmem | hmem
        · exact hheld hmem
        · exact hacquired.1 hmem

/-- A handle that is acquired once is left alone after it was released. -/
theorem Replays.after_release {e' : E} (hl : L.Replays 0 (log ++ e :: log') held')
    (honce : (L.acquired (log ++ e :: log')).Nodup) (hrelease : h ∈ L.releases e)
    (he' : e' ∈ log') : h ∉ L.uses e' ∧ h ∉ L.releases e' := by
  classical
  obtain ⟨mid, hbefore, hafter⟩ := hl.split
  cases hafter with
  | @cons _ mid' _ _ _ hm hrest =>
      have hcount := Multiset.nodup_iff_count_le_one.1 honce h
      rw [acquired_append, acquired_cons, Multiset.count_add, Multiset.count_add] at hcount
      have hbalance := congrArg (Multiset.count h) hbefore.balance
      rw [zero_add, Multiset.count_add] at hbalance
      have hmove := congrArg (Multiset.count h) hm.balance
      rw [Multiset.count_add, Multiset.count_add] at hmove
      have howned := Multiset.count_le_of_le h hm.owns
      have hreleases := Multiset.one_le_count_iff_mem.2 hrelease
      apply hrest.untouched _ _ he'
      · rw [← Multiset.count_eq_zero]
        omega
      · rw [← Multiset.count_eq_zero]
        omega

/-! ## Programs -/

variable (L) in
/-- Run with `held`, the program has `post` of what it returns, if the answers may be relied on. -/
def Triple (rely : A → Prop) (held : Multiset H) (p : Asking A E α) (post : α → Multiset H) :
    Prop :=
  ∀ answers x rest, (∀ a ∈ answers, rely a) → (p answers).2 = some (x, rest) →
    L.Replays held (p answers).1 (post x) ∧ ∀ a ∈ rest, rely a

namespace Triple

variable {rely : A → Prop} {p : Asking A E α} {f : α → Asking A E β} {post : α → Multiset H}

theorem pure {x : α} (heq : held = post x) :
    L.Triple rely held (Pure.pure x : Asking A E α) post := by
  rintro answers y rest hrely ⟨⟩
  exact ⟨heq ▸ .nil _, hrely⟩

theorem bind {post' : β → Multiset H} (hp : L.Triple rely held p post)
    (hf : ∀ x, L.Triple rely (post x) (f x) post') : L.Triple rely held (p >>= f) post' := by
  intro answers y rest hrely hresult
  rw [Asking.bind_result] at hresult
  obtain ⟨⟨x, mid⟩, hfirst, hsecond⟩ := Option.bind_eq_some_iff.1 hresult
  obtain ⟨hreplays, hmid⟩ := hp answers x mid hrely hfirst
  obtain ⟨hreplays', hrest⟩ := hf x mid y rest hmid hsecond
  rw [Asking.bind_of_eq (Prod.ext rfl hfirst)]
  exact ⟨hreplays.append hreplays', hrest⟩

theorem act (hm : L.Moves held e held') :
    L.Triple rely held (Asking.act e : Asking A E Unit) fun _ => held' := by
  rintro answers ⟨⟩ rest hrely ⟨⟩
  exact ⟨.single hm, hrely⟩

theorem of_eq (heq : held = held') (hp : L.Triple rely held' p post) : L.Triple rely held p post :=
  heq ▸ hp

theorem acquire (hreleases : L.releases e = 0) (huses : L.uses e ≤ held) :
    L.Triple rely held (Asking.act e : Asking A E Unit) fun _ => L.acquires e + held := by
  apply act
  exact { balance := by rw [hreleases, add_zero, add_comm]
          owns := hreleases ▸ Multiset.zero_le held
          uses := huses }

theorem release (hacquires : L.acquires e = 0) (huses : L.uses e ≤ L.releases e) :
    L.Triple rely (L.releases e + held) (Asking.act e : Asking A E Unit) fun _ => held := by
  apply act
  exact { balance := by rw [hacquires, add_zero, add_comm]
          owns := Multiset.le_add_right _ _
          uses := huses.trans (Multiset.le_add_right _ _) }

/-- An event that neither acquires nor releases. -/
theorem use (hacquires : L.acquires e = 0) (hreleases : L.releases e = 0)
    (huses : L.uses e ≤ held) :
    L.Triple rely held (Asking.act e : Asking A E Unit) fun _ => held := by
  have h : L.Triple rely held (Asking.act e : Asking A E Unit) fun _ => L.acquires e + held :=
    acquire hreleases huses
  rwa [hacquires, zero_add] at h

theorem ask {read : A → Option α} :
    L.Triple rely held (Asking.ask read : Asking A E α) fun _ => held := by
  intro answers x rest hrely hresult
  cases answers with
  | nil => cases hresult
  | cons a answers =>
      obtain ⟨x', -, hx⟩ := Option.map_eq_some_iff.1 hresult
      cases hx
      exact ⟨.nil _, fun a' ha' => hrely a' (List.mem_cons_of_mem a ha')⟩

/-- What follows an answer needs to be proved for those that may be given. -/
theorem ask_bind {read : A → Option α} {post' : β → Multiset H}
    (hf : ∀ a x, rely a → read a = some x → L.Triple rely held (f x) post') :
    L.Triple rely held (Asking.ask read >>= f) post' := by
  intro answers y rest hrely hresult
  cases answers with
  | nil => cases hresult
  | cons a answers =>
      rw [List.forall_mem_cons] at hrely
      rw [Asking.bind_result] at hresult
      obtain ⟨⟨x, mid⟩, hfirst, hsecond⟩ := Option.bind_eq_some_iff.1 hresult
      obtain ⟨x', hread, hx⟩ := Option.map_eq_some_iff.1 hfirst
      cases hx
      rw [Asking.bind_of_eq (Prod.ext rfl hfirst)]
      exact hf a x hrely.1 hread answers y rest hrely.2 hsecond

theorem frame (hp : L.Triple rely held p post) (frame : Multiset H) :
    L.Triple rely (held + frame) p fun x => post x + frame := by
  intro answers x rest hrely hresult
  obtain ⟨hreplays, hrest⟩ := hp answers x rest hrely hresult
  exact ⟨hreplays.frame frame, hrest⟩

theorem loop {body : σ → Asking A E (σ ⊕ α)}
    (hbody : ∀ s, L.Triple rely held (body s) (Sum.elim (fun _ => held) post)) (s : σ) :
    L.Triple rely held (Asking.loop body s) post := by
  have hiterate (n : Nat) (s : σ) : L.Triple rely held (Asking.iterate body n s) post := by
    induction n generalizing s with
    | zero => rintro answers x rest hrely ⟨⟩
    | succ n ih =>
        apply (hbody s).bind
        intro r
        cases r with
        | inl s => exact ih s
        | inr x => exact pure rfl
  exact fun answers => hiterate _ s answers

end Triple

end Ledger

end CppHttpd.Foundation
