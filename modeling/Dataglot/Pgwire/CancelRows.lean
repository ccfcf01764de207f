/-
The cancel flag of a query and the row stream that heeds it (`CancelFlag`, `cancel_aware_rows`
in `handler.rs`). A schedule says who acts next: a canceller, between its store and its
`notify_waiters`, or the reader of the stream, with the branch that `select!` tries first
and whether the rows below have something ready.
-/
import Mathlib

namespace Dataglot

inductive Branch
  | cancelled
  | rows
  deriving DecidableEq

inductive RowsEvent
  | store
  | notify
  | poll (first : Branch) (rowsReady : Bool)
  deriving DecidableEq

/-- The flag, and the state of the `unfold`. -/
structure CancelRows (α : Type) where
  cancelled : Bool := false
  /-- The cancellers that have stored the flag and not yet notified. -/
  notifying : Nat := 0
  /-- The `Notified` of the step that is under way, and whether it has been woken. -/
  notified : Option Bool := none
  /-- How many items have been taken from the rows. -/
  taken : Nat := 0
  done : Bool := false
  ended : Bool := false
  out : List α := []
  deriving DecidableEq

namespace CancelRows

section Rows

-- the items of the rows in their order, up to the first `none`, and the error `QueryCanceled`
variable {α : Type} (rows : Nat → Option α) (queryCanceled : α)

/-- A poll of `flag.cancelled()` returns. The flag is read once the `Notified` is created, and again once
it is woken. -/
def cancelReady (s : CancelRows α) : Bool :=
  match s.notified with
  | none => s.cancelled
  | some woken => woken && s.cancelled

/-- A poll of the stream. Whatever `select!` has chosen, the other branch is dropped. -/
def poll (s : CancelRows α) (first : Branch) (rowsReady : Bool) : CancelRows α :=
  if s.ended then s
  else if s.done then { s with ended := true }
  else if s.cancelReady && (first = .cancelled || !rowsReady) then
    { s with notified := none, done := true, out := s.out ++ [queryCanceled] }
  else if rowsReady then
    match rows s.taken with
    | some item => { s with notified := none, taken := s.taken + 1, out := s.out ++ [item] }
    | none => { s with notified := none, ended := true }
  else { s with notified := some false }

def step (s : CancelRows α) : RowsEvent → CancelRows α
  | .store => { s with cancelled := true, notifying := s.notifying + 1 }
  | .notify =>
    if s.notifying = 0 then s
    else { s with notifying := s.notifying - 1, notified := s.notified.map fun _ => true }
  | .poll first rowsReady => s.poll rows queryCanceled first rowsReady

def after (schedule : Nat → RowsEvent) : Nat → CancelRows α
  | 0 => {}
  | n + 1 => (after schedule n).step rows queryCanceled (schedule n)

def firstItems (n : Nat) : List α := (List.range n).filterMap rows

/-- A poll at which the cancelled branch is ready. -/
def ReadyAt (schedule : Nat → RowsEvent) (n : Nat) (first : Branch) (rowsReady : Bool) : Prop :=
  let s := after rows queryCanceled schedule n
  schedule n = .poll first rowsReady ∧ s.cancelReady = true ∧ s.done = false ∧ s.ended = false

/-- `select!` is fair to the cancelled branch: if it is ready over and over, it is chosen at last. -/
def Fair (schedule : Nat → RowsEvent) : Prop :=
  (∀ m, ∃ n ≥ m, ∃ first rowsReady, ReadyAt rows queryCanceled schedule n first rowsReady) →
    ∃ n first rowsReady, ReadyAt rows queryCanceled schedule n first rowsReady ∧
      (first = .cancelled ∨ rowsReady = false)

structure Inv (s : CancelRows α) : Prop where
  out : s.out = firstItems rows s.taken ++ if s.done then [queryCanceled] else []
  full : s.ended = true → s.done = true ∨ rows s.taken = none
  flagged : 0 < s.notifying ∨ s.notified = some true → s.cancelled = true
  awaited : s.cancelled = true → s.notified = some false → 0 < s.notifying

variable {rows queryCanceled} {s : CancelRows α} {schedule : Nat → RowsEvent}

theorem inv_step (h : Inv rows queryCanceled s) (e) :
    Inv rows queryCanceled (s.step rows queryCanceled e) := by
  obtain ⟨hout, hfull, hflagged, hawaited⟩ := h
  have hitems : ∀ n item, rows n = some item → firstItems rows (n + 1) = firstItems rows n ++ [item] := by
    intro n item hi
    simp [firstItems, List.range_succ, hi]
  cases e with
  | store => constructor <;> grind [step]
  | notify => constructor <;> grind [step, Option.map_eq_some_iff]
  | poll first rowsReady =>
    simp only [step, poll]
    repeat' split
    all_goals constructor <;> grind [cancelReady]

theorem inv_after : ∀ n, Inv rows queryCanceled (after rows queryCanceled schedule n)
  | 0 => by constructor <;> simp [after, firstItems]
  | n + 1 => inv_step (inv_after n) (schedule n)

theorem poll_progresses (h : Inv rows queryCanceled s) (hended : s.ended = false) (first) (rowsReady)
    (hready : rowsReady = true ∨ s.done = true ∨ s.cancelled = true ∧ s.notifying = 0) :
    let s' := s.poll rows queryCanceled first rowsReady
    s'.ended = true ∨ s'.out.length = s.out.length + 1 := by
  have hawaited := h.awaited
  grind [poll, cancelReady]

/-! ## After a cancel -/

theorem cancelled_step (h : s.cancelled = true) (e) : (s.step rows queryCanceled e).cancelled = true := by
  cases e <;> grind [step, poll]

theorem done_step {out} (h : s.done = true ∧ s.out = out) (e) :
    (s.step rows queryCanceled e).done = true ∧ (s.step rows queryCanceled e).out = out := by
  cases e <;> grind [step, poll]

/-- The flag is set, and no `Notified` waits that is older than that. -/
def Armed (s : CancelRows α) : Prop := s.cancelled = true ∧ s.notified ≠ some false

theorem armed_step (h : s.Armed) (e) : (s.step rows queryCanceled e).Armed := by
  cases e <;> grind [Armed, step, poll, cancelReady, Option.map_eq_some_iff]

theorem persists (P : CancelRows α → Prop) (hstep : ∀ s e, P s → P (s.step rows queryCanceled e)) {a b}
    (hab : a ≤ b) (h : P (after rows queryCanceled schedule a)) : P (after rows queryCanceled schedule b) := by
  induction b, hab using Nat.le_induction with
  | base => exact h
  | succ b _ ih => exact hstep _ _ ih

theorem poll_of_taken {e} (h : s.taken < (s.step rows queryCanceled e).taken) :
    (∃ first rowsReady, e = .poll first rowsReady) ∧ s.done = false ∧ s.ended = false ∧
      (s.step rows queryCanceled e).notified = none := by
  cases e <;> grind [step, poll]

theorem exists_taken (h : ∀ N, ∃ n, N < (after rows queryCanceled schedule n).taken) (a) :
    ∃ k ≥ a, (after rows queryCanceled schedule k).taken < (after rows queryCanceled schedule (k + 1)).taken := by
  by_contra! hst
  obtain ⟨n, hn⟩ := h (after rows queryCanceled schedule a).taken
  rcases le_total n a with hle | hle
  · have hg : ∀ (s : CancelRows α) e, (after rows queryCanceled schedule n).taken ≤ s.taken →
        (after rows queryCanceled schedule n).taken ≤ (s.step rows queryCanceled e).taken := by
      intro s e hs
      cases e <;> grind [step, poll]
    exact absurd (persists _ hg hle le_rfl) (not_le.mpr hn)
  · induction n, hle using Nat.le_induction with
    | base => exact lt_irrefl _ hn
    | succ n hle ih => exact ih (hn.trans_le (hst n hle))

/-- Once the flag is set, the second item that is still taken is taken while the cancelled branch is ready. -/
theorem exists_readyAt {c} (hc : (after rows queryCanceled schedule c).cancelled = true)
    (h : ∀ N, ∃ n, N < (after rows queryCanceled schedule n).taken) (m : Nat) :
    ∃ n ≥ m, ∃ first rowsReady, ReadyAt rows queryCanceled schedule n first rowsReady := by
  obtain ⟨k, hk, hf⟩ := exists_taken h (max c m)
  obtain ⟨n, hn, hse⟩ := exists_taken h (k + 1)
  have hca := persists (fun s => s.cancelled = true) (fun _ e hs => cancelled_step hs e)
    (by omega : c ≤ k + 1) hc
  have ha : (after rows queryCanceled schedule (k + 1)).Armed := by
    refine ⟨hca, ?_⟩
    rw [after, (poll_of_taken hf).2.2.2]
    exact (Option.some_ne_none false).symm
  obtain ⟨hflag, hnotified⟩ := persists Armed (fun _ e hs => armed_step hs e) hn ha
  obtain ⟨⟨first, rowsReady, hp⟩, hd, he, -⟩ := poll_of_taken hse
  refine ⟨n, by omega, first, rowsReady, hp, ?_, hd, he⟩
  unfold cancelReady
  grind

theorem taken_bounded {c} (hc : (after rows queryCanceled schedule c).cancelled = true)
    (hf : Fair rows queryCanceled schedule) : ∃ N, ∀ n, (after rows queryCanceled schedule n).taken ≤ N := by
  by_contra! hu
  obtain ⟨n, first, rowsReady, ⟨hp, hr, hd, he⟩, hch⟩ := hf (exists_readyAt hc hu)
  have hcn : (after rows queryCanceled schedule (n + 1)).done = true := by
    simp [after, hp, step, poll, hr, hd, he, hch]
  obtain ⟨k, hk, hg⟩ := exists_taken hu (n + 1)
  have hst := persists (fun s => s.done = true) (fun _ e hs => (done_step ⟨hs, rfl⟩ e).1) hk hcn
  exact absurd hst (Bool.eq_false_iff.mp (poll_of_taken hg).2.1)

end Rows
end CancelRows
end Dataglot
