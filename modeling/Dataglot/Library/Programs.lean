/-
Programs that ask for one atomic operation after the other, and any number of them over
one state, each going on whenever it is scheduled.

What they do is shown by a rely-guarantee calculus. `wp` says of a program that it can take
each of its operations after whatever the others have done meanwhile (`rely`), that it
keeps its promise about the operation (`guar`), and that the postcondition holds at its
end. In a pool of programs that promise what the others rely on, this stays true whatever
the schedule (`Pool.Sound`).
-/
import Mathlib

namespace Programs
open Function

variable {Op : Type} {Reply : Op → Type} {α β σ ι C : Type}

/-- A program asks for an operation and goes on with the reply, or is done. -/
inductive Prog (Op : Type) (Reply : Op → Type) (α : Type) : Type
  | done (result : α)
  | ask (op : Op) (next : Reply op → Prog Op Reply α)

namespace Prog

def bind : Prog Op Reply α → (α → Prog Op Reply β) → Prog Op Reply β
  | done a, f => f a
  | ask op next, f => ask op fun r => (next r).bind f

instance : Monad (Prog Op Reply) where
  pure := done
  bind := bind

/-- Ask for one operation and return its reply. -/
def perform (op : Op) : Prog Op Reply (Reply op) := ask op done

@[simp] theorem done_bind (a) (f : α → Prog Op Reply β) : done a >>= f = f a := rfl

@[simp] theorem pure_eq (a) : (pure a : Prog Op Reply α) = done a := rfl

@[simp] theorem ask_bind (op) (next) (f : α → Prog Op Reply β) :
    ask op next >>= f = ask op fun r => next r >>= f := rfl

@[simp] theorem perform_bind (op) (f : Reply op → Prog Op Reply β) : perform op >>= f = ask op f := rfl

/-- Whatever the replies, the program asks for operations of one kind and returns results of one kind. -/
def Does (Q : Op → Prop) (R : α → Prop) : Prog Op Reply α → Prop
  | done a => R a
  | ask op next => Q op ∧ ∀ r, (next r).Does Q R

theorem Does.mono {Q R S} (hi : ∀ a, R a → S a) : ∀ {p : Prog Op Reply α}, p.Does Q R → p.Does Q S
  | done a, hp => hi a hp
  | ask _ _, hp => ⟨hp.1, fun r => (hp.2 r).mono hi⟩

theorem Does.bind {Q R S} {f : α → Prog Op Reply β} :
    ∀ {p}, p.Does Q R → (∀ a, R a → (f a).Does Q S) → (p >>= f).Does Q S
  | done a, hp, hf => hf a hp
  | ask _ _, hp, hf => ⟨hp.1, fun r => (hp.2 r).bind hf⟩

end Prog

/-! ## One program -/

section Alone

variable (exec : σ → (op : Op) → Reply op × σ)

/-- What a program returns and leaves when no other comes in between. -/
def Prog.alone : Prog Op Reply α → σ → α × σ
  | done a, s => (a, s)
  | ask op next, s => (next (exec s op).1).alone (exec s op).2

@[simp] theorem Prog.alone_done (a) (s) : (done a : Prog Op Reply α).alone exec s = (a, s) := rfl

@[simp] theorem Prog.alone_ask (op) (next : Reply op → Prog Op Reply α) (s) :
    (ask op next).alone exec s = (next (exec s op).1).alone exec (exec s op).2 := rfl

end Alone

section Wp

/-- What a program relies on while it waits, and what it promises about its own operations. -/
structure Terms (σ : Type) (Op : Type) (Reply : Op → Type) where
  rely : σ → σ → Prop
  guar : σ → (op : Op) → Reply op → σ → Prop
  refl : ∀ s, rely s s
  trans : ∀ {s t u}, rely s t → rely t u → rely s u

variable (exec : C → σ → (op : Op) → Reply op × σ) (T : Terms σ Op Reply)

/-- The others do not make it false. -/
def Terms.Stable (P : σ → Prop) : Prop := ∀ s s', T.rely s s' → P s → P s'

/-- The program keeps its promises from here on and ends with the postcondition. -/
def wp : Prog Op Reply α → (α → σ → Prop) → σ → Prop
  | .done a, post, s => post a s
  | .ask op next, post, s => ∀ s', T.rely s s' → ∀ c,
      T.guar s' op (exec c s' op).1 (exec c s' op).2 ∧ wp (next (exec c s' op).1) post (exec c s' op).2

variable {exec T} {post : α → σ → Prop} {s s' : σ}

theorem wp_bind {f} {post : β → σ → Prop} : ∀ {p : Prog Op Reply α} {s},
    wp exec T (p >>= f) post s ↔ wp exec T p (fun a => wp exec T (f a) post) s
  | .done _, _ => Iff.rfl
  | .ask _ _, _ => forall_congr' fun _ => imp_congr_right fun _ => forall_congr' fun _ => and_congr_right fun _ => wp_bind

theorem wp_mono {post post'} (hi : ∀ a s, post a s → post' a s) : ∀ {p : Prog Op Reply α} {s},
    wp exec T p post s → wp exec T p post' s
  | .done a, s, h => hi a s h
  | .ask _ _, _, h => fun s' hr c => ⟨(h s' hr c).1, wp_mono hi (h s' hr c).2⟩

theorem wp_stable (hp : ∀ a, T.Stable (post a)) {p} (h : wp exec T p post s)
    (hr : T.rely s s') : wp exec T p post s' := by
  cases p with
  | done a => exact hp a s s' hr h
  | ask op next => exact fun t ht c => h t (T.trans hr ht) c

theorem wp_ask {P op next} (hs : T.Stable P) (hP : P s)
    (hstep : ∀ s c, P s → T.guar s op (exec c s op).1 (exec c s op).2 ∧
      wp exec T (next (exec c s op).1) post (exec c s op).2) : wp exec T (.ask op next) post s :=
  fun s' hr c => hstep s' c (hs s s' hr hP)

theorem wp_of_does {Q R} (hg : ∀ s c op, Q op → T.guar s op (exec c s op).1 (exec c s op).2) :
    ∀ {p : Prog Op Reply α} {s}, p.Does Q R → wp exec T p (fun a _ => R a) s
  | .done _, _, h => h
  | .ask _ _, _, h => fun _ _ _ => ⟨hg _ _ _ h.1, wp_of_does hg (h.2 _)⟩

theorem wp_weaken {T'} (hr : ∀ s s', T'.rely s s' → T.rely s s')
    (hg : ∀ s op r s', T.guar s op r s' → T'.guar s op r s') : ∀ {p s}, wp exec T p post s → wp exec T' p post s
  | .done _, _, h => h
  | .ask _ _, _, h => fun s' hs' c =>
    ⟨hg _ _ _ _ (h s' (hr _ _ hs') c).1, wp_weaken hr hg (h s' (hr _ _ hs') c).2⟩

end Wp

section Goes

variable {exec : C → σ → (op : Op) → Reply op × σ} {s s' : σ}

/-- A program running alone gets from one point to another. -/
inductive Goes (exec : C → σ → (op : Op) → Reply op × σ) :
    σ → Prog Op Reply α → σ → Prog Op Reply α → Prop
  | refl {s : σ} {p : Prog Op Reply α} : Goes exec s p s p
  | step {s s' : σ} {op : Op} {next : Reply op → Prog Op Reply α} {p' : Prog Op Reply α} (c : C) :
      Goes exec (exec c s op).2 (next (exec c s op).1) s' p' → Goes exec s (.ask op next) s' p'

theorem Goes.ask {t op r next} {p' : Prog Op Reply α} (c)
    (he : exec c s op = (r, t)) (hg : Goes exec t (next r) s' p') : Goes exec s (.ask op next) s' p' := by
  refine .step c ?_
  rw [he]
  exact hg

theorem Goes.trans {s₁ s₂ s₃} {p₁ p₂ p₃ : Prog Op Reply α} (h : Goes exec s₁ p₁ s₂ p₂) :
    Goes exec s₂ p₂ s₃ p₃ → Goes exec s₁ p₁ s₃ p₃ := by
  intro h'
  induction h with
  | refl => exact h'
  | step c _ ih => exact .step c (ih h')

theorem Goes.bind {p p'} (f : α → Prog Op Reply β) (h : Goes exec s p s' p') :
    Goes exec s (p >>= f) s' (p' >>= f) := by
  induction h with
  | refl => exact .refl
  | step c _ ih => exact .step c ih

theorem goes_alone (exec : σ → (op : Op) → Reply op × σ) : ∀ (p : Prog Op Reply α) s,
    Goes (fun _ : Unit => exec) s p (p.alone exec s).2 (.done (p.alone exec s).1)
  | .done _, _ => .refl
  | .ask _ _, _ => .step () (goes_alone exec _ _)

end Goes

/-! ## Pools -/

/-- The programs in their slots, and the state they share. -/
structure Pool (ι σ : Type) (Op : Type) (Reply : Op → Type) (α : Type) where
  shared : σ
  procs : ι → Option (Prog Op Reply α)

namespace Pool

variable [DecidableEq ι] (exec : ι → C → σ → (op : Op) → Reply op × σ)

/-- The program in a slot takes its next operation. -/
def run (i : ι) (c : C) (s : Pool ι σ Op Reply α) : Option (Pool ι σ Op Reply α) :=
  match s.procs i with
  | some (.ask op next) =>
    some ⟨(exec i c s.shared op).2, Function.update s.procs i (some (next (exec i c s.shared op).1))⟩
  | _ => none

/-- A program is put into a slot that has none, or whose program is done. -/
def start (i : ι) (p : Prog Op Reply α) (s : Pool ι σ Op Reply α) : Option (Pool ι σ Op Reply α) :=
  match s.procs i with
  | some (.ask _ _) => none
  | _ => some ⟨s.shared, Function.update s.procs i (some p)⟩

/-- The program in a slot is gone, wherever it was. -/
def crash (i : ι) (s : Pool ι σ Op Reply α) : Pool ι σ Op Reply α :=
  ⟨s.shared, Function.update s.procs i none⟩

def result (i : ι) (s : Pool ι σ Op Reply α) : Option α :=
  match s.procs i with
  | some (.done a) => some a
  | _ => none

/-- Some schedule of the programs leads from one pool to the other. -/
def Reaches : Pool ι σ Op Reply α → Pool ι σ Op Reply α → Prop :=
  Relation.ReflTransGen fun s s' => ∃ i c, run exec i c s = some s'

variable {exec} {s s' : Pool ι σ Op Reply α} {i : ι} {c : C}

theorem run_eq_some : run exec i c s = some s' ↔ ∃ op next, s.procs i = some (.ask op next) ∧
    s' = ⟨(exec i c s.shared op).2, update s.procs i (some (next (exec i c s.shared op).1))⟩ := by
  unfold run
  split
  next op next h =>
    simp only [h, Option.some.injEq, Prog.ask.injEq]
    constructor
    · exact fun h' => ⟨op, next, ⟨rfl, HEq.rfl⟩, h'.symm⟩
    · rintro ⟨_, _, ⟨rfl, h⟩, h'⟩
      cases h
      exact h'.symm
  next h =>
    refine ⟨nofun, ?_⟩
    rintro ⟨op, next, h', -⟩
    exact absurd h' (h op next)

omit [DecidableEq ι] in
theorem result_eq_some {a} : s.result i = some a ↔ s.procs i = some (.done a) := by
  unfold result
  split
  next b h => rw [h, Option.some.injEq, Option.some.injEq, Prog.done.injEq]
  next h => exact ⟨nofun, fun h' => absurd h' (h a)⟩

theorem start_eq_some {p} (h : start i p s = some s') : s' = ⟨s.shared, update s.procs i (some p)⟩ := by
  unfold start at h
  split at h
  next => cases h
  next => exact (Option.some.inj h).symm

theorem reaches_of_goes {p p' t} (hg : Goes (exec i) s.shared p t p') :
    s.procs i = some p → Reaches exec s ⟨t, update s.procs i (some p')⟩ := by
  intro hp
  generalize hs : s.shared = u at hg
  induction hg generalizing s with
  | refl =>
    subst hs
    rw [← hp, update_eq_self]
    exact .refl
  | step c _ ih =>
    subst hs
    have hru : run exec i c s = some _ := run_eq_some.mpr ⟨_, _, hp, rfl⟩
    have hr := ih (s := ⟨_, update s.procs i (some _)⟩) (update_self ..) rfl
    rw [update_idem] at hr
    exact .head ⟨i, c, hru⟩ hr

/-- A program gets to an operation and is slow to take it; another one overtakes it. -/
theorem reaches_overtaken {j p q q' t u op next} (hij : i ≠ j) (hi : s.procs i = some p) (hj : s.procs j = some q)
    (hs : Goes (exec i) s.shared p t (.ask op next)) (hf : Goes (exec j) t q u q') (c) :
    Reaches exec s ⟨(exec i c u op).2,
      update (update s.procs j (some q')) i (some (next (exec i c u op).1))⟩ := by
  have hp : Reaches exec s ⟨t, update s.procs i (some (.ask op next))⟩ := reaches_of_goes hs hi
  generalize hw : Prog.ask op next = waits at hp
  have hj' : update s.procs i (some waits) j = some q := (update_of_ne hij.symm _ _).trans hj
  have hpa : Reaches exec ⟨t, update s.procs i (some waits)⟩ _ := reaches_of_goes hf hj'
  subst hw
  dsimp only at hpa
  rw [update_comm hij] at hpa
  have hi' : update (update s.procs j (some q')) i (some (.ask op next)) i = some (.ask op next) :=
    update_self ..
  have hlast := (hp.trans hpa).tail ⟨i, c, run_eq_some.mpr ⟨op, next, hi', rfl⟩⟩
  rw [update_idem] at hlast
  exact hlast

/-- Every program keeps its promises from where it is. -/
def Sound (exec : ι → C → σ → (op : Op) → Reply op × σ) (T : ι → Terms σ Op Reply) (post : ι → α → σ → Prop)
    (s : Pool ι σ Op Reply α) : Prop :=
  ∀ i p, s.procs i = some p → wp (exec i) (T i) p (post i) s.shared

section Sound

variable {T : ι → Terms σ Op Reply} {post : ι → α → σ → Prop}

omit [DecidableEq ι] in
theorem Sound.guar (h : Sound exec T post s) {op next} (hi : s.procs i = some (.ask op next)) (c) :
    (T i).guar s.shared op (exec i c s.shared op).1 (exec i c s.shared op).2 :=
  (h i _ hi s.shared ((T i).refl _) c).1

theorem Sound.run (hp : ∀ i a, (T i).Stable (post i a))
    (hr : ∀ i j, i ≠ j → ∀ s op r s', (T j).guar s op r s' → (T i).rely s s')
    (h : Sound exec T post s) (hru : Pool.run exec i c s = some s') : Sound exec T post s' := by
  obtain ⟨op, next, hi, rfl⟩ := run_eq_some.mp hru
  intro j p hj
  dsimp only at hj ⊢
  by_cases hji : j = i
  · subst hji
    rw [update_self] at hj
    cases hj
    exact (h j _ hi s.shared ((T j).refl _) c).2
  · rw [update_of_ne hji] at hj
    exact wp_stable (hp j) (h j p hj) (hr j i hji _ _ _ _ (h.guar hi c))

theorem Sound.start {p} (h : Sound exec T post s) (hp : wp (exec i) (T i) p (post i) s.shared)
    (hs : Pool.start i p s = some s') : Sound exec T post s' := by
  rw [start_eq_some hs]
  intro j q hj
  dsimp only at hj ⊢
  by_cases hji : j = i
  · subst hji
    rw [update_self] at hj
    cases hj
    exact hp
  · rw [update_of_ne hji] at hj
    exact h j q hj

theorem Sound.crash (h : Sound exec T post s) (i) : Sound exec T post (s.crash i) := by
  intro j p hj
  refine h j p ?_
  dsimp only [Pool.crash] at hj
  by_cases hji : j = i
  · subst hji
    rw [update_self] at hj
    cases hj
  · rwa [update_of_ne hji] at hj

end Sound

end Pool

end Programs
