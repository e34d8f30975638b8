import KLStream.Queue.Threads
import Mathlib.Algebra.Group.Basic

/-!
# Queue/Wakeup — no wakeup is lost

`close` and the notifies after `unlock()` leave a window in which a waiter's condition has changed
and nobody has woken it yet. A ledger over the threads' phases (`Tally.Balanced`) bounds that
window: while the queue is open and a pusher waits, every free slot is owed a wakeup — a pusher
already woken, or a pop still to notify `not_full_` — and while a popper waits, every held event
likewise; once the queue is closed, every waiter still has a `close` to wake it.

* `Step.wakeInv` — every step of every thread keeps the ledger and the ring invariant;
* `reachable_quiescent_waiters_blocked` — so when no notify is pending and no woken thread is
  still to reacquire `mutex_`, a pusher waits only on a full open queue, a popper only on an empty
  open one.
-/

namespace KLStream

variable {C : Capacity} {α : Type}

/-! ## Counting threads by phase -/

/-- How many threads stand in each phase that matters for wakeups, per condition variable
(`F`: `not_full_`, `E`: `not_empty_`). -/
structure Tally where
  waitF : ℕ := 0
  waitE : ℕ := 0
  wokenF : ℕ := 0
  wokenE : ℕ := 0
  notifF : ℕ := 0
  notifE : ℕ := 0
  closeF : ℕ := 0
  closeE : ℕ := 0

namespace Tally

instance : Add Tally :=
  ⟨fun a b => ⟨a.waitF + b.waitF, a.waitE + b.waitE, a.wokenF + b.wokenF, a.wokenE + b.wokenE,
    a.notifF + b.notifF, a.notifE + b.notifE, a.closeF + b.closeF, a.closeE + b.closeE⟩⟩

instance : Zero Tally := ⟨{}⟩

section Fields

variable (a b : Tally)

@[simp] theorem add_waitF : (a + b).waitF = a.waitF + b.waitF := rfl
@[simp] theorem add_waitE : (a + b).waitE = a.waitE + b.waitE := rfl
@[simp] theorem add_wokenF : (a + b).wokenF = a.wokenF + b.wokenF := rfl
@[simp] theorem add_wokenE : (a + b).wokenE = a.wokenE + b.wokenE := rfl
@[simp] theorem add_notifF : (a + b).notifF = a.notifF + b.notifF := rfl
@[simp] theorem add_notifE : (a + b).notifE = a.notifE + b.notifE := rfl
@[simp] theorem add_closeF : (a + b).closeF = a.closeF + b.closeF := rfl
@[simp] theorem add_closeE : (a + b).closeE = a.closeE + b.closeE := rfl

end Fields

theorem ext_iff' {a b : Tally} : a = b ↔ a.waitF = b.waitF ∧ a.waitE = b.waitE ∧
    a.wokenF = b.wokenF ∧ a.wokenE = b.wokenE ∧ a.notifF = b.notifF ∧ a.notifE = b.notifE ∧
    a.closeF = b.closeF ∧ a.closeE = b.closeE := by
  cases a; cases b; simp

/-- Tallies add field by field. -/
instance : AddCommMonoid Tally where
  add_assoc _ _ _ := by
    refine ext_iff'.2 ⟨?_, ?_, ?_, ?_, ?_, ?_, ?_, ?_⟩ <;> exact Nat.add_assoc ..
  zero_add _ := by refine ext_iff'.2 ⟨?_, ?_, ?_, ?_, ?_, ?_, ?_, ?_⟩ <;> exact Nat.zero_add _
  add_zero _ := rfl
  add_comm _ _ := by refine ext_iff'.2 ⟨?_, ?_, ?_, ?_, ?_, ?_, ?_, ?_⟩ <;> exact Nat.add_comm ..
  nsmul := nsmulRec

instance : IsRightCancelAdd Tally :=
  ⟨fun _ _ _ h => ext_iff'.2 ⟨Nat.add_right_cancel (congrArg waitF h),
    Nat.add_right_cancel (congrArg waitE h), Nat.add_right_cancel (congrArg wokenF h),
    Nat.add_right_cancel (congrArg wokenE h), Nat.add_right_cancel (congrArg notifF h),
    Nat.add_right_cancel (congrArg notifE h), Nat.add_right_cancel (congrArg closeF h),
    Nat.add_right_cancel (congrArg closeE h)⟩⟩

/-- One thread waiting on `cv`. -/
def waiter : Cv → Tally
  | .notFull => { waitF := 1 }
  | .notEmpty => { waitE := 1 }

/-- One woken thread whose call waits on `cv`. -/
def wokenOne : Cv → Tally
  | .notFull => { wokenF := 1 }
  | .notEmpty => { wokenE := 1 }

/-- The threads waiting on `cv`. -/
def waiting (t : Tally) : Cv → ℕ
  | .notFull => t.waitF
  | .notEmpty => t.waitE

/-- `notify_all` on `cv`: its waiters become woken. -/
def wakeAll (t : Tally) : Cv → Tally
  | .notFull => { t with waitF := 0, wokenF := t.wokenF + t.waitF }
  | .notEmpty => { t with waitE := 0, wokenE := t.wokenE + t.waitE }

theorem wakeAll_add (a b : Tally) (cv : Cv) :
    (a + b).wakeAll cv = a.wakeAll cv + b.wakeAll cv := by
  cases cv <;> refine ext_iff'.2 ⟨?_, ?_, ?_, ?_, ?_, ?_, ?_, ?_⟩ <;>
    simp only [wakeAll, add_waitF, add_waitE, add_wokenF, add_wokenE, add_notifF, add_notifE,
      add_closeF, add_closeE] <;> omega

theorem waiting_add (a b : Tally) (cv : Cv) :
    (a + b).waiting cv = a.waiting cv + b.waiting cv := by
  cases cv <;> rfl

/-- **The wakeup ledger** of a queue holding `n` of `cap` events. Open: whenever a pusher waits,
the free slots are covered by the pushers already woken and the pops still to notify `not_full_`;
whenever a popper waits, the held events are covered by the poppers already woken and the pushes
still to notify `not_empty_`. Closed: every waiter still has a `close` to wake it. -/
def Balanced (t : Tally) (cap n : ℕ) : Bool → Prop
  | false => (0 < t.waitF → cap - n ≤ t.wokenF + t.notifF) ∧
      (0 < t.waitE → n ≤ t.wokenE + t.notifE)
  | true => (0 < t.waitF → 0 < t.closeF) ∧ (0 < t.waitE → 0 < t.closeF + t.closeE)

end Tally

namespace Phase

/-- The tally of one thread. -/
def tally : Phase α → Tally
  | .idle => {}
  | .waiting c => Tally.waiter c.cv
  | .woken c _ => Tally.wokenOne c.cv
  | .notifying .notFull => { notifF := 1 }
  | .notifying .notEmpty => { notifE := 1 }
  | .closing .notFull => { closeF := 1 }
  | .closing .notEmpty => { closeE := 1 }

@[simp] theorem tally_idle : (idle : Phase α).tally = 0 := rfl

theorem tally_wakeOn (p : Phase α) (cv : Cv) : (p.wakeOn cv).tally = p.tally.wakeAll cv := by
  cases p with
  | waiting c =>
    cases cv <;> cases h : c.cv <;>
      simp [wakeOn, tally, h, Tally.waiter, Tally.wokenOne, Tally.wakeAll]
  | woken c _ => cases cv <;> cases c <;> rfl
  | idle => cases cv <;> rfl
  | notifying cv' | closing cv' => cases cv <;> cases cv' <;> rfl

theorem tally_waiting (p : Phase α) (cv : Cv) :
    p.tally.waiting cv = if p.isWaiting cv then 1 else 0 := by
  cases p with
  | waiting c | woken c =>
    cases cv <;> cases h : c.cv <;>
      simp [tally, isWaiting, h, Tally.waiting, Tally.waiter, Tally.wokenOne]
  | idle => cases cv <;> rfl
  | notifying cv' | closing cv' => cases cv <;> cases cv' <;> rfl

end Phase

/-- The tally of a pool of threads. -/
def tally : List (Phase α) → Tally
  | [] => 0
  | p :: ps => p.tally + tally ps

/-- **One thread and the rest**: the tally of a pool is the rest's plus the thread's, whatever
phase that thread is given. -/
theorem tally_rest {ts : List (Phase α)} {i : ℕ} {a : Phase α} (h : ts[i]? = some a) :
    ∃ R, tally ts = R + a.tally ∧ ∀ b, tally (ts.set i b) = R + b.tally := by
  induction ts generalizing i with
  | nil => simp at h
  | cons p ps ih =>
    cases i with
    | zero =>
      obtain rfl : p = a := by simpa using h
      exact ⟨tally ps, add_comm _ _, fun b => add_comm _ _⟩
    | succ i =>
      obtain ⟨R, hR, hset⟩ := ih (by simpa using h)
      exact ⟨p.tally + R, by rw [tally, hR, add_assoc], fun b => by
        rw [List.set_cons_succ, tally, hset, add_assoc]⟩

theorem tally_map_wakeOn (ts : List (Phase α)) (cv : Cv) :
    tally (ts.map (Phase.wakeOn cv)) = (tally ts).wakeAll cv := by
  induction ts with
  | nil => cases cv <;> rfl
  | cons p ps ih => simp only [List.map_cons, tally, ih, Phase.tally_wakeOn, Tally.wakeAll_add]

theorem waiting_tally (ts : List (Phase α)) (cv : Cv) :
    (tally ts).waiting cv = ts.countP (·.isWaiting cv) := by
  induction ts with
  | nil => cases cv <;> rfl
  | cons p ps ih =>
    rw [tally, Tally.waiting_add, ih, p.tally_waiting, List.countP_cons, Nat.add_comm]

/-- **What a `notify_one` does to the tally**: one waiter on `cv` becomes woken, or there was
none. -/
theorem NotifyOne.tally_cases {cv : Cv} {ts ts' : List (Phase α)} (h : NotifyOne cv ts ts') :
    (∃ R, tally ts = R + Tally.waiter cv ∧ tally ts' = R + Tally.wokenOne cv) ∨
      (ts' = ts ∧ (tally ts).waiting cv = 0) := by
  cases h with
  | wake hj hc =>
    obtain ⟨R, hR, hset⟩ := tally_rest hj
    exact .inl ⟨R, by rw [hR, Phase.tally, hc], by rw [hset, Phase.tally, hc]⟩
  | empty h => exact .inr ⟨rfl, by rw [waiting_tally, List.countP_eq_zero]; simpa using h⟩

/-! ## The ledger's moves

Each lemma takes the ledger of the other threads plus the moving thread before the move, and gives
it after. -/

namespace Tally

variable {R T : Tally} {cap n : ℕ} {c : Bool}

/-- A woken thread only adds credit. -/
theorem Balanced.addWoken (h : R.Balanced cap n c) (cv : Cv) :
    (R + wokenOne cv).Balanced cap n c := by
  cases c <;> cases cv <;>
    simp only [Balanced, wokenOne, add_waitF, add_waitE, add_wokenF, add_wokenE, add_notifF,
      add_notifE, add_closeF, add_closeE] at h ⊢ <;> omega

/-- A spurious wakeup or a deadline: a waiter becomes woken. -/
theorem Balanced.wake (h : (R + waiter cv).Balanced cap n c) :
    (R + wokenOne cv).Balanced cap n c := by
  cases c <;> cases cv <;>
    simp only [Balanced, waiter, wokenOne, add_waitF, add_waitE, add_wokenF, add_wokenE,
      add_notifF, add_notifE, add_closeF, add_closeE] at h ⊢ <;> omega

/-- A woken thread whose wait condition still holds waits again. -/
theorem Balanced.block {q : BoundedQueue C α} {cv : Cv}
    (h : (R + wokenOne cv).Balanced C.val q.size q.closed) (hbl : q.Blocks cv) :
    (R + waiter cv).Balanced C.val q.size q.closed := by
  cases cv <;> obtain ⟨hn, hc⟩ := hbl <;> rw [hn, hc] at h ⊢ <;>
    simp only [Balanced, waiter, wokenOne, add_waitF, add_waitE, add_wokenF, add_wokenE,
      add_notifF, add_notifE, add_closeF, add_closeE] at h ⊢ <;> omega

/-- A woken thread returns, its wait condition still holding if the queue is open. -/
theorem Balanced.leave {q : BoundedQueue C α} {cv : Cv}
    (h : (R + wokenOne cv).Balanced C.val q.size q.closed)
    (hbl : q.closed = false → q.Blocks cv) : R.Balanced C.val q.size q.closed := by
  cases hc : q.closed <;> cases cv <;>
    simp only [Balanced, BoundedQueue.Blocks, wokenOne, hc, add_waitF, add_waitE, add_wokenF,
      add_wokenE, add_notifF, add_notifE, add_closeF, add_closeE, and_true, true_implies] at h hbl ⊢ <;>
    omega

/-- A woken pusher stores into an open queue, its `notify_one` still to come: its credit pays for
the slot it fills. -/
theorem Balanced.store (h : (R + wokenOne .notFull).Balanced cap n false) :
    (R + (Phase.notifying .notEmpty : Phase α).tally).Balanced cap (n + 1) false := by
  simp only [Balanced, Phase.tally, wokenOne, add_waitF, add_waitE, add_wokenF, add_wokenE,
    add_notifF, add_notifE, add_closeF, add_closeE] at h ⊢; omega

/-- A woken popper takes from a non-empty queue, its `notify_one` still to come. -/
theorem Balanced.take {n' : ℕ} (h : (R + wokenOne .notEmpty).Balanced cap n c) (hn : n' + 1 = n) :
    (R + (Phase.notifying .notFull : Phase α).tally).Balanced cap n' c := by
  cases c <;>
    simp only [Balanced, Phase.tally, wokenOne, add_waitF, add_waitE, add_wokenF, add_wokenE,
      add_notifF, add_notifE, add_closeF, add_closeE] at h ⊢ <;> omega

/-- `close` sets the flag, its `notify_all`s still to come. -/
theorem Balanced.close (h : R.Balanced cap n c) :
    (R + (Phase.closing .notFull : Phase α).tally).Balanced cap n true := by
  cases c <;>
    simp only [Balanced, Phase.tally, add_waitF, add_waitE, add_wokenF, add_wokenE, add_notifF,
      add_notifE, add_closeF, add_closeE] at h ⊢ <;> omega

/-- A pending `notify_one` on `cv` is made. -/
theorem Balanced.notify {cv : Cv} (h : (R + (Phase.notifying cv : Phase α).tally).Balanced cap n c)
    (hT : (∃ R', R = R' + waiter cv ∧ T = R' + wokenOne cv) ∨ (T = R ∧ R.waiting cv = 0)) :
    T.Balanced cap n c := by
  rcases hT with ⟨R', rfl, rfl⟩ | ⟨rfl, h0⟩ <;> cases c <;> cases cv <;>
    simp only [Balanced, Phase.tally, waiter, wokenOne, waiting, add_waitF, add_waitE, add_wokenF,
      add_wokenE, add_notifF, add_notifE, add_closeF, add_closeE] at * <;> omega

/-- One of `close`'s `notify_all`s is made. -/
theorem Balanced.notifyAll {cv : Cv}
    (h : (R + (Phase.closing cv : Phase α).tally).Balanced cap n c) :
    (R.wakeAll cv + (if cv = .notFull then .closing .notEmpty else .idle : Phase α).tally).Balanced
      cap n c := by
  cases c <;> cases cv <;>
    simp only [Balanced, Phase.tally, wakeAll, reduceCtorEq, ↓reduceIte, add_waitF, add_waitE,
      add_wokenF, add_wokenE, add_notifF, add_notifE, add_closeF, add_closeE] at h ⊢ <;> omega

/-- A notify under the lock, or after `unlock()`, from a pool whose other threads tally `R`. -/
theorem Balanced.notifyOne {cv : Cv} {ts ts' : List (Phase α)}
    (hb : (R + (Phase.notifying cv : Phase α).tally).Balanced cap n c)
    (hn : NotifyOne cv ts ts') (hR : tally ts = R) : (tally ts').Balanced cap n c :=
  hb.notify <| by
    rcases hn.tally_cases with ⟨R', h1, h2⟩ | ⟨rfl, h0⟩
    · exact .inl ⟨R', hR ▸ h1, h2⟩
    · exact .inr ⟨hR, hR ▸ h0⟩

open BoundedQueue in
/-- **A retest keeps the ledger**, the thread's woken credit spent on it. -/
theorem Balanced.retest {q q' : BoundedQueue C α} (hq : q.RingInv) {c : BlockingCall α}
    {t : Bool} {p : Phase α} (h : q.retest c t = (p, q'))
    (hb : (R + wokenOne c.cv).Balanced C.val q.size q.closed) :
    (R + p.tally).Balanced C.val q'.size q'.closed := by
  rcases (retest_cases hq h).2 with ⟨rfl, hbl, hs, hc⟩ | ⟨rfl, hbl, hs, hc⟩ |
      ⟨hcv, rfl, hc0, -, hs, hc⟩ | ⟨hcv, rfl, -, hs, hc⟩
  · rw [hs, hc]; exact hb.block hbl
  · rw [hs, hc, Phase.tally_idle, add_zero]; exact hb.leave hbl
  · rw [hcv, hc0] at hb; rw [hs, hc]; exact hb.store
  · rw [hcv] at hb; rw [hc]; exact hb.take hs

end Tally

/-! ## The invariant over every interleaving -/

namespace QueueSystem

/-- **The wakeup invariant** of a queue and its threads: the ring invariant, and the ledger. -/
structure WakeInv (s : QueueSystem C α) : Prop where
  ring : s.queue.RingInv
  balanced : (tally s.threads).Balanced C.val s.queue.size s.queue.closed

theorem tally_replicate_idle (n : ℕ) : tally (List.replicate n (.idle : Phase α)) = 0 := by
  induction n with
  | zero => rfl
  | succ n ih => rw [List.replicate_succ, tally, ih]; rfl

theorem wakeInv_init [Inhabited α] (n : ℕ) :
    (⟨.init, List.replicate n .idle⟩ : QueueSystem C α).WakeInv :=
  ⟨BoundedQueue.ringInv_init, by
    rw [tally_replicate_idle]; exact ⟨(absurd · (Nat.lt_irrefl 0)), (absurd · (Nat.lt_irrefl 0))⟩⟩

variable {s s' : QueueSystem C α}

/-- **Every step keeps the wakeup invariant.** -/
theorem Step.wakeInv (hs : Step s s') (hi : s.WakeInv) : s'.WakeInv := by
  obtain ⟨hq, hb⟩ := hi
  cases hs with
  | @enter q ts ts' i op p q' n hts hen hn =>
    obtain ⟨R, hR, hset⟩ := tally_rest hts
    have hidle : tally (ts.set i .idle) = R := (hset .idle).trans (add_zero R)
    rw [hR, Phase.tally_idle, add_zero] at hb
    rcases BoundedQueue.enter_cases hen with ⟨c, f, hf, hr, rfl⟩ | ⟨rfl, rfl, rfl⟩ |
        ⟨rfl, hm, hc, hsC, hs, hc', rfl⟩ | ⟨rfl, hm, hs0, hs, hc', rfl⟩ | ⟨rfl, rfl, rfl⟩
    · obtain rfl : ts' = _ := hn
      have hqf := hq.move (.count f hf)
      exact ⟨hqf.move (BoundedQueue.retest_cases hqf hr).1,
        by rw [hset]; exact (hb.addWoken c.cv).retest hqf hr⟩
    · obtain rfl : ts' = _ := hn
      exact ⟨hq, by rwa [hidle]⟩
    · rw [hc] at hb
      exact ⟨hq.move hm, by rw [hc', hs]; exact (hb.addWoken _).store.notifyOne hn hidle⟩
    · exact ⟨hq.move hm, by rw [hc']; exact ((hb.addWoken _).take hs).notifyOne hn hidle⟩
    · obtain rfl : ts' = _ := hn
      exact ⟨hq.move .close, by rw [hset]; exact hb.close⟩
  | wake hts _ =>
    obtain ⟨R, hR, hset⟩ := tally_rest hts
    rw [hR] at hb
    exact ⟨hq, by rw [hset]; exact hb.wake⟩
  | reacquire hts hr =>
    obtain ⟨R, hR, hset⟩ := tally_rest hts
    rw [hR] at hb
    exact ⟨hq.move (BoundedQueue.retest_cases hq hr).1, by rw [hset]; exact hb.retest hq hr⟩
  | notify hts hn =>
    obtain ⟨R, hR, hset⟩ := tally_rest hts
    rw [hR] at hb
    exact ⟨hq, hb.notifyOne hn ((hset .idle).trans (add_zero R))⟩
  | @notifyAll q ts i cv hts =>
    have hts' : (ts.map (Phase.wakeOn cv))[i]? = some (.closing cv) := by
      simp [hts, Phase.wakeOn]
    obtain ⟨R, hR, -⟩ := tally_rest hts
    obtain ⟨R', hR', hset'⟩ := tally_rest hts'
    have hR'' : R' = R.wakeAll cv := add_right_cancel <| hR'.symm.trans <| by
      rw [tally_map_wakeOn, hR, Tally.wakeAll_add, ← Phase.tally_wakeOn]; rfl
    rw [hR] at hb
    exact ⟨hq, by rw [hset', hR'']; exact hb.notifyAll⟩

/-- Every reachable state is in the wakeup invariant. -/
theorem Reachable.wakeInv [Inhabited α] (h : s.Reachable) : s.WakeInv := by
  induction h with
  | init n => exact wakeInv_init n
  | step _ hs ih => exact hs.wakeInv ih

/-- **No thread is between `unlock()` and its notify**, nor between `close`'s critical section and
its `notify_all`s, **and no woken thread is still to reacquire `mutex_`**: every thread is idle or
in a wait set. -/
def Quiescent (s : QueueSystem C α) : Prop := ∀ p ∈ s.threads, p = .idle ∨ ∃ c, p = .waiting c

/-- A quiescent pool holds no credit: no woken thread, no pending notify or `close`. -/
theorem credit_eq_zero_of_quiescent {ts : List (Phase α)}
    (h : ∀ p ∈ ts, p = .idle ∨ ∃ c, p = .waiting c) :
    (tally ts).wokenF + (tally ts).wokenE + (tally ts).notifF + (tally ts).notifE +
      (tally ts).closeF + (tally ts).closeE = 0 := by
  induction ts with
  | nil => rfl
  | cons p ps ih =>
    have ih := ih fun p hp => h p (List.mem_cons_of_mem _ hp)
    rcases h p (List.mem_cons_self _ _) with rfl | ⟨c, rfl⟩
    · rwa [tally, Phase.tally_idle, zero_add]
    · cases hc : c.cv <;>
        simp only [tally, Phase.tally, hc, Tally.waiter, Tally.add_wokenF, Tally.add_wokenE,
          Tally.add_notifF, Tally.add_notifE, Tally.add_closeF, Tally.add_closeE] <;> omega

/-- **A thread in a wait set of a quiescent state waits on a true condition.** -/
theorem WakeInv.blocks (hi : s.WakeInv) (hq : s.Quiescent) {p : Phase α} (hp : p ∈ s.threads)
    {cv : Cv} (hw : p.isWaiting cv) : s.queue.Blocks cv := by
  obtain ⟨hr, hb⟩ := hi
  have h0 := credit_eq_zero_of_quiescent hq
  have hpos : 0 < (tally s.threads).waiting cv := by
    rw [waiting_tally]; exact List.countP_pos_iff.mpr ⟨p, hp, hw⟩
  have hle := hr.size_le
  cases hc : s.queue.closed <;> cases cv <;>
    simp only [Tally.Balanced, Tally.waiting, BoundedQueue.Blocks, hc, and_true,
      Bool.true_eq_false, and_false] at hb hpos ⊢ <;> omega

/-- **No lost wakeup.** In every reachable state where no thread is between releasing `mutex_` and
its notify and no woken thread is still to reacquire `mutex_`, every thread waiting on `not_full_`
sees a full open queue, and every thread waiting on `not_empty_` an empty open one. -/
theorem reachable_quiescent_waiters_blocked [Inhabited α] (hs : s.Reachable) (hq : s.Quiescent) :
    (∀ p ∈ s.threads, p.isWaiting .notFull → s.queue.size = C.val ∧ s.queue.closed = false) ∧
      (∀ p ∈ s.threads, p.isWaiting .notEmpty → s.queue.size = 0 ∧ s.queue.closed = false) :=
  ⟨fun _ hp hw => hs.wakeInv.blocks hq hp hw, fun _ hp hw => hs.wakeInv.blocks hq hp hw⟩

theorem reachable_quiescent_waiters_blocked_full_pusher :
    ∃ s : QueueSystem (Capacity.ofPow 0) ℕ, s.Reachable ∧ s.Quiescent ∧
      Phase.waiting (.push 2) ∈ s.threads ∧ s.queue.size = 1 ∧ s.queue.closed = false := by
  let q₁ : BoundedQueue (Capacity.ofPow 0) ℕ :=
    (BoundedQueue.init.mapStats QueueStats.countPush).enqueue 1
  have h₁ : Step ⟨.init, List.replicate 2 .idle⟩ ⟨q₁, [.notifying .notEmpty, .idle]⟩ :=
    .enter (show (List.replicate 2 (.idle : Phase ℕ))[0]? = some .idle from rfl)
      (show BoundedQueue.enter _ (.push 1) = ((.notifying .notEmpty, q₁), none) from rfl) rfl
  have h₂ : Step ⟨q₁, [.notifying .notEmpty, .idle]⟩ ⟨q₁, [.idle, .idle]⟩ :=
    .notify (show _[0]? = some (.notifying .notEmpty) from rfl) (.empty (by decide))
  let q₂ := (q₁.mapStats QueueStats.countPush).mapStats QueueStats.countPushBlocked
  have h₃ : Step ⟨q₁, [.idle, .idle]⟩ ⟨q₂, [.idle, .waiting (.push 2)]⟩ :=
    .enter (show _[1]? = some .idle from rfl)
      (show BoundedQueue.enter _ (.push 2) = ((.waiting (.push 2), q₂), none) from rfl) rfl
  have hr := ((Reachable.init 2).step h₁).step h₂ |>.step h₃
  have hq : Quiescent ⟨q₂, [.idle, .waiting (.push 2)]⟩ := by
    intro p hp
    simp only [List.mem_cons, List.mem_singleton, List.not_mem_nil, or_false] at hp
    rcases hp with rfl | rfl
    · exact .inl rfl
    · exact .inr ⟨_, rfl⟩
  have hmem : Phase.waiting (.push 2) ∈ [.idle, .waiting (.push 2)] := by simp
  exact ⟨_, hr, hq, hmem, (reachable_quiescent_waiters_blocked hr hq).1 _ hmem rfl⟩

end QueueSystem

end KLStream
