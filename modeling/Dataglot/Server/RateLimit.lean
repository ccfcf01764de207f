/-
The rate of new connections from one address (`admit_at` in `rate_limit.rs`): a token bucket,
with times and tokens as rationals.

A call reads the clock before it takes the lock, so calls may come with times that are out of
order. The bucket keeps the time of the latest call, not the latest time: going back costs
nothing, and going forward again fills the bucket once more.
-/
import Mathlib

namespace Dataglot

structure RateParams where
  capacity : ℚ
  refillPerSec : ℚ
  capacity_nonneg : 0 ≤ capacity
  refill_nonneg : 0 ≤ refillPerSec

structure TokenBucket where
  tokens : ℚ
  last : ℚ

namespace RateParams

variable (p : RateParams)

/-- The rate check of `admit_at`: the bucket afterwards, and whether the connection passes. -/
def admitAt (bucket : Option TokenBucket) (now : ℚ) : TokenBucket × Bool :=
  let bucket := bucket.getD ⟨p.capacity, now⟩
  let elapsed := max (now - bucket.last) 0
  let tokens := min (bucket.tokens + elapsed * p.refillPerSec) p.capacity
  if tokens < 1 then (⟨tokens, now⟩, false) else (⟨tokens - 1, now⟩, true)

/-- How many of the calls with these times pass. -/
def admitted (bucket : Option TokenBucket) : List ℚ → Nat
  | [] => 0
  | now :: times =>
    let (bucket, passes) := p.admitAt bucket now
    (if passes then 1 else 0) + admitted (some bucket) times

/-- How far the times go forward in all. -/
def forward (last : ℚ) : List ℚ → ℚ
  | [] => 0
  | now :: times => max (now - last) 0 + forward now times

theorem admitted_le (bucket) (ht : 0 ≤ bucket.tokens) (times) :
    (p.admitted (some bucket) times : ℚ) ≤ bucket.tokens + p.refillPerSec * forward bucket.last times := by
  induction times generalizing bucket with
  | nil => simpa [admitted, forward] using ht
  | cons now times ih =>
    have hfilled : 0 ≤ max (now - bucket.last) 0 * p.refillPerSec := mul_nonneg (le_max_right ..) p.refill_nonneg
    have ht' : 0 ≤ min (bucket.tokens + max (now - bucket.last) 0 * p.refillPerSec) p.capacity :=
      le_min (by linarith) p.capacity_nonneg
    have hle := min_le_left (bucket.tokens + max (now - bucket.last) 0 * p.refillPerSec) p.capacity
    rw [admitted, forward, mul_add]
    by_cases hp : min (bucket.tokens + max (now - bucket.last) 0 * p.refillPerSec) p.capacity < 1
    · have hr := ih ⟨_, now⟩ ht'
      simp only [admitAt, Option.getD_some, if_pos hp]
      push_cast
      linarith
    · have hr := ih ⟨_ - 1, now⟩ (sub_nonneg.mpr (not_lt.mp hp))
      simp only [admitAt, Option.getD_some, if_neg hp]
      push_cast
      linarith

theorem forward_le {last hi : ℚ} {times : List ℚ} (hs : (last :: times).Pairwise (· ≤ ·))
    (hhi : ∀ t ∈ last :: times, t ≤ hi) : forward last times ≤ hi - last := by
  induction times generalizing last with
  | nil => simpa [forward] using hhi
  | cons now times ih =>
    have hrest := ih (List.pairwise_cons.mp hs).2 fun t ht => hhi t (List.mem_cons_of_mem _ ht)
    have hn := (List.pairwise_cons.mp hs).1 now List.mem_cons_self
    rw [forward, max_eq_left (sub_nonneg.mpr hn)]
    linarith

/-- Calls pass no more often than the capacity and what is filled in on all ways forward; for calls in the order of
their times that is the time from the first to the last. -/
theorem rate_holds_in_order (p : RateParams) (first : ℚ) (times : List ℚ) :
    (p.admitted none (first :: times) : ℚ) ≤ p.capacity + p.refillPerSec * forward first times ∧
    ((first :: times).Pairwise (· ≤ ·) → ∀ lo hi, (∀ t ∈ first :: times, lo ≤ t ∧ t ≤ hi) →
      (p.admitted none (first :: times) : ℚ) ≤ p.capacity + p.refillPerSec * (hi - lo)) := by
  have hf : p.admitted none (first :: times) = p.admitted (some ⟨p.capacity, first⟩) (first :: times) := rfl
  have hb : (p.admitted none (first :: times) : ℚ) ≤ p.capacity + p.refillPerSec * forward first times := by
    rw [hf]
    refine (p.admitted_le ⟨p.capacity, first⟩ p.capacity_nonneg (first :: times)).trans (le_of_eq ?_)
    simp [forward]
  refine ⟨hb, fun hs lo hi hr => hb.trans ?_⟩
  have hforward := forward_le hs fun t ht => (hr t ht).2
  have hlo := (hr first List.mem_cons_self).1
  have := mul_le_mul_of_nonneg_left (show forward first times ≤ hi - lo by linarith) p.refill_nonneg
  linarith

/-- One token, one more each second: with times that go back and forth over one second, three calls pass. -/
theorem clock_going_back_refills :
    let p : RateParams := ⟨1, 1, by decide, by decide⟩
    p.admitted none [1, 0, 1, 0, 1] = 3 ∧ ¬ (3 : ℚ) ≤ p.capacity + p.refillPerSec * (1 - 0) := by
  decide +kernel

end RateParams

end Dataglot
