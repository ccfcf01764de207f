/-
The limits on live connections (`ConnectionLimiter` and `IdentityLimiter` in `rate_limit.rs`),
with any number of admits and drops going on at once.

An admit takes a global permit, then counts the address under a lock, and gives the permit
back if the address has too many; a drop takes the address off the count, then gives the
permit back.
-/
import Dataglot.Library.Runs
import Mathlib

namespace Dataglot
open List Function

variable {A : Type} [DecidableEq A]

/-- One more for `a`, unless the cap is reached. -/
def countUp (max : Nat) (counts : A → Option Nat) (a : A) : (A → Option Nat) × Bool :=
  let count := (counts a).getD 0
  if max ≤ count then (update counts a (some count), false) else (update counts a (some (count + 1)), true)

/-- One less for `a`; a count of zero is removed. -/
def countDown (counts : A → Option Nat) (a : A) : A → Option Nat :=
  match counts a with
  | some count => update counts a (if count - 1 = 0 then none else some (count - 1))
  | none => counts

structure LimitCaps where
  maxConnections : Nat
  maxPerIp : Nat
  maxPerUser : Nat
  pos : 1 ≤ maxConnections ∧ 1 ≤ maxPerIp ∧ 1 ≤ maxPerUser

structure ConnectionLimiter (A : Type) where
  free : Nat
  counts : A → Option Nat
  /-- the addresses of the live permits -/
  live : List A
  /-- admits that have a global permit and are not yet counted -/
  acquired : List A
  /-- permits that a rejected admit or a drop is about to give back -/
  releasing : Nat

inductive LimitEvent (A : Type)
  | acquire (a : A)
  | count (a : A)
  | uncount (a : A)
  | release

/-- `IdentityLimiter`, with the users of the live guards. -/
structure IdentityLimiter (A : Type) where
  counts : A → Option Nat
  live : List A

variable (caps : LimitCaps)

def ConnectionLimiter.new : ConnectionLimiter A := ⟨caps.maxConnections, fun _ => none, [], [], 0⟩

def ConnectionLimiter.step (s : ConnectionLimiter A) : LimitEvent A → Option (ConnectionLimiter A)
  | .acquire a => if s.free = 0 then some s else some { s with free := s.free - 1, acquired := a :: s.acquired }
  | .count a =>
    if a ∉ s.acquired then none
    else
      match countUp caps.maxPerIp s.counts a with
      | (counts, true) => some { s with counts, live := a :: s.live, acquired := s.acquired.erase a }
      | (counts, false) => some { s with counts, acquired := s.acquired.erase a, releasing := s.releasing + 1 }
  | .uncount a =>
    if a ∉ s.live then none
    else some { s with counts := countDown s.counts a, live := s.live.erase a, releasing := s.releasing + 1 }
  | .release => if s.releasing = 0 then none else some { s with free := s.free + 1, releasing := s.releasing - 1 }

/-- An admit (`true`) or a drop for a user; each holds the lock throughout. -/
def IdentityLimiter.step (s : IdentityLimiter A) : A × Bool → Option (IdentityLimiter A)
  | (user, true) =>
    match countUp caps.maxPerUser s.counts user with
    | (counts, true) => some ⟨counts, user :: s.live⟩
    | (counts, false) => some { s with counts }
  | (user, false) => if user ∉ s.live then none else some ⟨countDown s.counts user, s.live.erase user⟩

/-! ## Counts and live permits -/

/-- The counts that the live permits come to. -/
def tally (live : List A) (a : A) : Option Nat := if live.count a = 0 then none else some (live.count a)

variable {caps} {max : Nat} {live : List A} {a : A}

theorem countUp_tally (hmax : 1 ≤ max) : countUp max (tally live) a =
    if max ≤ live.count a then (tally live, false) else (tally (a :: live), true) := by
  have hc : (tally live a).getD 0 = live.count a := by
    unfold tally
    split_ifs with h
    · exact h.symm
    · rfl
  rw [countUp, hc]
  split_ifs with hfull
  · exact congrArg (·, false) (update_eq_self_iff.mpr (if_neg (by omega)).symm)
  · refine congrArg (·, true) (funext fun b => ?_)
    grind [update_apply, tally]

theorem countDown_tally (ha : a ∈ live) : countDown (tally live) a = tally (live.erase a) := by
  have hpos : 0 < live.count a := count_pos_iff.mpr ha
  have hc : tally live a = some (live.count a) := if_neg (by omega)
  rw [countDown, hc]
  funext b
  grind [update_apply, tally]

structure ConnectionLimiter.Accounted (caps : LimitCaps) (s : ConnectionLimiter A) : Prop where
  permits : s.free + s.acquired.length + s.live.length + s.releasing = caps.maxConnections
  exact : s.counts = tally s.live
  capped : ∀ a, s.live.count a ≤ caps.maxPerIp

theorem ConnectionLimiter.Accounted.step {s s' : ConnectionLimiter A} {e} (h : s.Accounted caps)
    (hstep : s.step caps e = some s') : s'.Accounted caps := by
  obtain ⟨hpermits, hexact, hcapped⟩ := h
  have hup := fun a => @countUp_tally _ _ _ s.live a caps.pos.2.1
  cases e with
  | acquire a => grind [ConnectionLimiter.step, Accounted]
  | count a =>
    have hl := fun h => length_erase_of_mem (a := a) (l := s.acquired) h
    grind [ConnectionLimiter.step, Accounted]
  | uncount a =>
    have hl := fun h => length_erase_of_mem (a := a) (l := s.live) h
    have hcount := fun b => (erase_sublist (a := a) (l := s.live)).count_le b
    grind [ConnectionLimiter.step, Accounted, countDown_tally]
  | release => grind [ConnectionLimiter.step, Accounted]

structure IdentityLimiter.Accounted (caps : LimitCaps) (s : IdentityLimiter A) : Prop where
  exact : s.counts = tally s.live
  capped : ∀ user, s.live.count user ≤ caps.maxPerUser

theorem IdentityLimiter.Accounted.step {s s' : IdentityLimiter A} {e} (h : s.Accounted caps)
    (hstep : s.step caps e = some s') : s'.Accounted caps := by
  obtain ⟨hexact, hcapped⟩ := h
  obtain ⟨user, _ | _⟩ := e
  · have hcount := fun b => (erase_sublist (a := user) (l := s.live)).count_le b
    grind [IdentityLimiter.step, Accounted, countDown_tally]
  · have hup := @countUp_tally _ _ _ s.live user caps.pos.2.2
    grind [IdentityLimiter.step, Accounted]

/-- Whenever no admit and no drop is in progress, the counts and the free permits are those that the live permits come
to; a rejected admit leaves all as it was. -/
theorem limits_account_exactly (caps : LimitCaps) :
    (∀ events (s : ConnectionLimiter A), Runs.run (ConnectionLimiter.step caps) (.new caps) events = some s →
      s.acquired = [] → s.releasing = 0 →
      s.counts = tally s.live ∧ (∀ a, s.live.count a ≤ caps.maxPerIp) ∧ s.live.length ≤ caps.maxConnections ∧
      s.free = caps.maxConnections - s.live.length ∧
      ∀ a, (s.free = 0 → s.step caps (.acquire a) = some s) ∧
        (s.free ≠ 0 → caps.maxPerIp ≤ s.live.count a →
          Runs.run (ConnectionLimiter.step caps) s [.acquire a, .count a, .release] = some s)) ∧
    ∀ events (s : IdentityLimiter A), Runs.run (IdentityLimiter.step caps) ⟨fun _ => none, []⟩ events = some s →
      s.counts = tally s.live ∧ (∀ user, s.live.count user ≤ caps.maxPerUser) ∧
      ∀ user, caps.maxPerUser ≤ s.live.count user → s.step caps (user, true) = some s := by
  refine ⟨fun events s hru ha hr => ?_, fun events s hru => ?_⟩
  · have hn : (ConnectionLimiter.new caps : ConnectionLimiter A).Accounted caps := ⟨rfl, rfl, fun _ => Nat.zero_le _⟩
    obtain ⟨hp, he, hc⟩ := (Runs.along_of_inv (ConnectionLimiter.Accounted caps)
      (fun _ _ _ h hstep => ⟨h.step hstep, h.step hstep⟩) events hn).at_end hn hru
    rw [ha, hr, length_nil] at hp
    refine ⟨he, hc, by omega, by omega, fun a => ⟨fun hf => if_pos hf, fun hf hfu => ?_⟩⟩
    have hup := @countUp_tally _ _ _ s.live a caps.pos.2.1
    rw [if_pos hfu, ← he] at hup
    obtain ⟨free, counts, live, acquired, releasing⟩ := s
    subst ha hr
    simp only at hup hf
    simp [Runs.run, ConnectionLimiter.step, hf, hup]
    omega
  · have hn : (⟨fun _ => none, []⟩ : IdentityLimiter A).Accounted caps := ⟨rfl, fun _ => Nat.zero_le _⟩
    obtain ⟨he, hc⟩ := (Runs.along_of_inv (IdentityLimiter.Accounted caps)
      (fun _ _ _ h hstep => ⟨h.step hstep, h.step hstep⟩) events hn).at_end hn hru
    refine ⟨he, hc, fun user hfu => ?_⟩
    have hup := @countUp_tally _ _ _ s.live user caps.pos.2.2
    rw [if_pos hfu, ← he] at hup
    simp [IdentityLimiter.step, hup]

end Dataglot
