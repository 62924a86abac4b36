import Mathlib.Data.List.Basic

/-! # The concurrent query counter of `OSRM_impl`

In shared-memory mode each `RunQuery` call is a small program over `query_mutex`,
`pending_update_mutex` and `number_of_queries`; a schedule says which call moves next, and a
call waiting for a held mutex does not move.
-/
namespace OsrmNutiteq.Osrm

/-- How `HandleRequest`, and `RunQuery` itself, end: with a return code or by raising. -/
inductive Outcome where
  | returned (code : Int)
  | raised
  deriving DecidableEq, Repr

/-- What the world does during one `RunQuery` call: whether `plugin_map` has the requested
service, whether `CheckAndReloadFacade` raises, and how `HandleRequest` ends. -/
structure Request where
  serviceFound : Bool
  reloadRaises : Bool
  handleRequest : Outcome
  deriving DecidableEq, Repr

/-- The shared `SharedBarriers` record: each mutex free or held by a call, and the counter. -/
structure Barrier where
  pendingUpdateMutex : Option Nat
  queryMutex : Option Nat
  numberOfQueries : Int
  deriving DecidableEq, Repr

/-- Where a `RunQuery` call is. The names of the steps inside the two counter functions say
what the call does next. -/
inductive Pc where
  | start
  /-- `scoped_lock pending_lock(barrier->pending_update_mutex)` -/
  | lockPending
  /-- `scoped_lock query_lock(barrier->query_mutex)` -/
  | lockQuery
  /-- `pending_lock.unlock()` -/
  | unlockPending
  /-- `++(barrier->number_of_queries)` -/
  | increment
  /-- `CheckAndReloadFacade()`, then `query_lock` released on the way out -/
  | reload
  | handle
  /-- in `decrease_concurrent_query_count`: `scoped_lock query_lock(barrier->query_mutex)` -/
  | decreaseLock (code : Int)
  /-- `--(barrier->number_of_queries)`, the assertion and the notification, then the unlock -/
  | decrement (code : Int)
  | done (result : Outcome)
  deriving DecidableEq, Repr

namespace Pc

def holdsQuery : Pc → Bool
  | unlockPending | increment | reload | decrement _ => true
  | _ => false

def holdsPending : Pc → Bool
  | lockQuery | unlockPending => true
  | _ => false

/-- The steps after the call's `++` and before its `--`; a call that raised is past its `++`
and never reaches its `--`. -/
def counted : Pc → Bool
  | reload | handle | decreaseLock _ | decrement _ | done .raised => true
  | _ => false

/-- Whether the call can take its next step: it has not finished, and the mutex it waits for,
if any, is free. -/
def enabled (b : Barrier) : Pc → Bool
  | lockPending => b.pendingUpdateMutex.isNone
  | lockQuery | decreaseLock _ => b.queryMutex.isNone
  | done _ => false
  | _ => true

/-- Steps left to the end of the call, along its longest path. -/
def remaining : Pc → Nat
  | start => 9
  | lockPending => 8
  | lockQuery => 7
  | unlockPending => 6
  | increment => 5
  | reload => 4
  | handle => 3
  | decreaseLock _ => 2
  | decrement _ => 1
  | done _ => 0

theorem enabled_of_free {p : Pc} {b : Barrier} (hdone : ∀ r, p ≠ done r)
    (hq : b.queryMutex = none) (hp : b.pendingUpdateMutex = none) : p.enabled b = true := by
  cases p <;> simp_all [enabled]

theorem enabled_of_holdsQuery {p : Pc} (b : Barrier) (h : p.holdsQuery = true) :
    p.enabled b = true := by
  cases p <;> simp_all [enabled, holdsQuery]

theorem enabled_of_holdsPending {p : Pc} {b : Barrier} (h : p.holdsPending = true)
    (hq : b.queryMutex = none) : p.enabled b = true := by
  cases p <;> simp_all [enabled, holdsPending]

end Pc

structure Call where
  request : Request
  pc : Pc
  /-- `json_result.values["status_message"]`, as `RunQuery` itself sets it. -/
  statusMessage : Option String
  deriving DecidableEq, Repr

namespace Call

def step (shared : Bool) (i : Nat) (b : Barrier) (c : Call) : Barrier × Call :=
  match c.pc with
  | .start =>
    if c.request.serviceFound then (b, { c with pc := if shared then .lockPending else .handle })
    else (b, { c with pc := .done (.returned 400), statusMessage := some "Service not found" })
  | .lockPending =>
    if b.pendingUpdateMutex = none then
      ({ b with pendingUpdateMutex := some i }, { c with pc := .lockQuery })
    else (b, c)
  | .lockQuery =>
    if b.queryMutex = none then ({ b with queryMutex := some i }, { c with pc := .unlockPending })
    else (b, c)
  | .unlockPending => ({ b with pendingUpdateMutex := none }, { c with pc := .increment })
  | .increment => ({ b with numberOfQueries := b.numberOfQueries + 1 }, { c with pc := .reload })
  | .reload =>
    ({ b with queryMutex := none },
      { c with pc := if c.request.reloadRaises then .done .raised else .handle })
  | .handle =>
    match c.request.handleRequest with
    | .raised => (b, { c with pc := .done .raised })
    | .returned code =>
      (b, { c with pc := if shared then .decreaseLock code else .done (.returned code) })
  | .decreaseLock code =>
    if b.queryMutex = none then ({ b with queryMutex := some i }, { c with pc := .decrement code })
    else (b, c)
  | .decrement code =>
    ({ b with numberOfQueries := b.numberOfQueries - 1, queryMutex := none },
      { c with pc := .done (.returned code) })
  | .done _ => (b, c)

theorem step_counter (i : Nat) (b : Barrier) (c : Call) :
    (c.step true i b).1.numberOfQueries + (if c.pc.counted then 1 else 0) =
      b.numberOfQueries + (if (c.step true i b).2.pc.counted then 1 else 0) := by
  unfold step
  split <;> (try split) <;> (try split) <;> simp_all [Pc.counted]

theorem step_mutex {i : Nat} {b : Barrier} {c : Call}
    (hq : c.pc.holdsQuery = true ↔ b.queryMutex = some i)
    (hp : c.pc.holdsPending = true ↔ b.pendingUpdateMutex = some i) :
    ((c.step true i b).2.pc.holdsQuery = true ↔ (c.step true i b).1.queryMutex = some i) ∧
    ((c.step true i b).2.pc.holdsPending = true ↔
      (c.step true i b).1.pendingUpdateMutex = some i) ∧
    ∀ j, j ≠ i →
      ((c.step true i b).1.queryMutex = some j ↔ b.queryMutex = some j) ∧
      ((c.step true i b).1.pendingUpdateMutex = some j ↔ b.pendingUpdateMutex = some j) := by
  unfold step
  split <;> (try split) <;> (try split) <;> simp_all [Pc.holdsQuery, Pc.holdsPending] <;>
    exact fun _ => Ne.symm

theorem step_holders (sh : Bool) (i : Nat) (b : Barrier) (c : Call) (j : Nat) :
    ((c.step sh i b).1.queryMutex = some j → j = i ∨ b.queryMutex = some j) ∧
    ((c.step sh i b).1.pendingUpdateMutex = some j → j = i ∨ b.pendingUpdateMutex = some j) := by
  unfold step
  split <;> (try split) <;> (try split) <;> simp_all

theorem step_advances (sh : Bool) (i : Nat) {b : Barrier} {c : Call} (h : c.pc.enabled b = true) :
    (c.step sh i b).2.pc.remaining < c.pc.remaining := by
  unfold step
  split <;> (try split) <;> (try split) <;> simp_all [Pc.enabled, Pc.remaining]

end Call

/-- `OSRM_impl` with the `RunQuery` calls under way. -/
structure OsrmImpl where
  /-- Whether `barrier` is set: shared-memory mode. -/
  shared : Bool
  barrier : Barrier
  calls : List Call

namespace OsrmImpl

def start (shared : Bool) (requests : List Request) : OsrmImpl :=
  ⟨shared, ⟨none, none, 0⟩, requests.map fun r => ⟨r, .start, none⟩⟩

def step (s : OsrmImpl) (i : Nat) : OsrmImpl :=
  match s.calls[i]? with
  | none => s
  | some c =>
    { s with barrier := (c.step s.shared i s.barrier).1,
             calls := s.calls.set i (c.step s.shared i s.barrier).2 }

def exec (s : OsrmImpl) (schedule : List Nat) : OsrmImpl := schedule.foldl step s

@[simp] theorem exec_nil (s : OsrmImpl) : s.exec [] = s := rfl

@[simp] theorem exec_cons (s : OsrmImpl) (i : Nat) (is : List Nat) :
    s.exec (i :: is) = (s.step i).exec is := rfl

@[simp] theorem step_shared (s : OsrmImpl) (i : Nat) : (s.step i).shared = s.shared := by
  unfold step
  split <;> rfl

theorem exec_induction (P : OsrmImpl → Prop) (hstep : ∀ s i, s.shared = true → P s → P (s.step i))
    {s : OsrmImpl} (hs : s.shared = true) (h : P s) (schedule : List Nat) : P (s.exec schedule) := by
  induction schedule generalizing s with
  | nil => exact h
  | cons i is ih => exact ih (by rwa [step_shared]) (hstep s i hs h)

/-! ## The counter -/

/-- `number_of_queries` counts the calls that `Pc.counted` marks. -/
def CounterInv (s : OsrmImpl) : Prop :=
  s.barrier.numberOfQueries = s.calls.countP (·.pc.counted)

theorem start_counterInv (shared : Bool) (requests : List Request) :
    (start shared requests).CounterInv := by
  have h : (start shared requests).calls.countP (·.pc.counted) = 0 :=
    List.countP_eq_zero.mpr fun c hc => by
      obtain ⟨r, -, rfl⟩ := List.mem_map.mp hc
      simp [Pc.counted]
  rw [CounterInv, h]
  rfl

theorem step_counterInv {s : OsrmImpl} (i : Nat) (hs : s.shared = true) (h : s.CounterInv) :
    (s.step i).CounterInv := by
  unfold step
  split
  next => exact h
  next c hc =>
    obtain ⟨hlt, rfl⟩ := List.getElem?_eq_some_iff.mp hc
    have hstep := Call.step_counter i s.barrier s.calls[i]
    have hpos : (if s.calls[i].pc.counted then 1 else 0) ≤ s.calls.countP (·.pc.counted) := by
      split
      · exact List.countP_pos_iff.mpr ⟨_, List.getElem_mem hlt, ‹_›⟩
      · exact Nat.zero_le _
    unfold CounterInv at h ⊢
    rw [hs, List.countP_set _ _ _ _ hlt]
    revert hstep hpos
    cases s.calls[i].pc.counted <;> cases (s.calls[i].step true i s.barrier).2.pc.counted <;>
      simp only [ite_true, ite_false, Bool.false_eq_true] <;> omega

/-- In shared-memory mode, under every schedule of any number of `RunQuery` calls,
`number_of_queries` is the number of calls past their `++` and not past their `--`, the calls
that raised among them; so it is never negative, and the assertion after `--` never fails. -/
theorem exec_counter (requests : List Request) (schedule : List Nat) :
    ((start true requests).exec schedule).barrier.numberOfQueries =
      ((start true requests).exec schedule).calls.countP (·.pc.counted) :=
  exec_induction CounterInv (fun _ i hs h => step_counterInv i hs h) rfl
    (start_counterInv true requests) schedule

/-! ## The mutexes -/

/-- Each mutex is held by exactly the call whose program is between its lock and unlock. -/
def MutexInv (s : OsrmImpl) : Prop :=
  ∀ i c, s.calls[i]? = some c →
    (c.pc.holdsQuery = true ↔ s.barrier.queryMutex = some i) ∧
    (c.pc.holdsPending = true ↔ s.barrier.pendingUpdateMutex = some i)

theorem start_mutexInv (shared : Bool) (requests : List Request) :
    (start shared requests).MutexInv := by
  intro i c hc
  simp only [start, List.getElem?_map, Option.map_eq_some'] at hc
  obtain ⟨r, -, rfl⟩ := hc
  simp [start, Pc.holdsQuery, Pc.holdsPending]

theorem step_mutexInv {s : OsrmImpl} (i : Nat) (hs : s.shared = true) (h : s.MutexInv) :
    (s.step i).MutexInv := by
  unfold step
  split
  next => exact h
  next c hc =>
    obtain ⟨hq, hp, hother⟩ := Call.step_mutex (h i c hc).1 (h i c hc).2
    intro j d hd
    rw [hs]
    by_cases hji : j = i
    · subst hji
      obtain rfl : (c.step true j s.barrier).2 = d := by
        simpa [hs, (List.getElem?_eq_some_iff.mp hc).1] using hd
      exact ⟨hq, hp⟩
    · rw [List.getElem?_set_ne (Ne.symm hji)] at hd
      rw [(hother j hji).1, (hother j hji).2]
      exact h j d hd

/-- Under every schedule, each of `query_mutex` and `pending_update_mutex` is held by
exactly the call between its lock and unlock, so by at most one call: the `++` and `--`,
which run under `query_mutex`, never overlap. -/
theorem exec_mutexInv (requests : List Request) (schedule : List Nat) :
    ((start true requests).exec schedule).MutexInv :=
  exec_induction MutexInv (fun _ i hs h => step_mutexInv i hs h) rfl
    (start_mutexInv true requests) schedule

/-! ## Every run can finish

No schedule leads to a deadlock: while a call has not finished, some call is enabled, since
the holder of `query_mutex` never waits and the holder of `pending_update_mutex` waits only
for `query_mutex` (`exists_enabled`). Every enabled step lowers the steps the calls have
left, so from every reachable state some schedule finishes all the calls (`exec_completes`).
-/

theorem exec_append (s : OsrmImpl) (as bs : List Nat) : s.exec (as ++ bs) = (s.exec as).exec bs :=
  List.foldl_append _ _ _ _

def HolderInv (s : OsrmImpl) : Prop :=
  ∀ j, (s.barrier.queryMutex = some j ∨ s.barrier.pendingUpdateMutex = some j) →
    j < s.calls.length

theorem start_holderInv (shared : Bool) (requests : List Request) :
    (start shared requests).HolderInv := by
  simp [HolderInv, start]

theorem step_holderInv {s : OsrmImpl} (i : Nat) (h : s.HolderInv) : (s.step i).HolderInv := by
  unfold step
  split
  next => exact h
  next c hc =>
    intro j hj
    rw [List.length_set]
    have hi := (List.getElem?_eq_some_iff.mp hc).1
    have hq := (Call.step_holders s.shared i s.barrier c j).1
    have hp := (Call.step_holders s.shared i s.barrier c j).2
    rcases hj with hj | hj
    · rcases hq hj with rfl | hj <;> first | exact hi | exact h j (.inl hj)
    · rcases hp hj with rfl | hj <;> first | exact hi | exact h j (.inr hj)

theorem exists_enabled_of_queryMutex {s : OsrmImpl} {j : Nat} (hm : s.MutexInv) (hh : s.HolderInv)
    (hj : s.barrier.queryMutex = some j) :
    ∃ (k : Nat) (c : Call), s.calls[k]? = some c ∧ c.pc.enabled s.barrier = true := by
  have hlt := hh j (.inl hj)
  have hc : s.calls[j]? = some s.calls[j] := List.getElem?_eq_getElem hlt
  exact ⟨j, _, hc, Pc.enabled_of_holdsQuery _ ((hm j _ hc).1.mpr hj)⟩

/-- No deadlock: while some call has not finished, some call is enabled. -/
theorem exists_enabled {s : OsrmImpl} (hm : s.MutexInv) (hh : s.HolderInv)
    (hrun : ∃ c ∈ s.calls, ∀ r, c.pc ≠ .done r) :
    ∃ (k : Nat) (c : Call), s.calls[k]? = some c ∧ c.pc.enabled s.barrier = true := by
  obtain ⟨c, hc, hdone⟩ := hrun
  cases hq : s.barrier.queryMutex with
  | some j => exact exists_enabled_of_queryMutex hm hh hq
  | none =>
    cases hp : s.barrier.pendingUpdateMutex with
    | none =>
      obtain ⟨k, hk⟩ := List.mem_iff_getElem?.mp hc
      exact ⟨k, c, hk, Pc.enabled_of_free hdone hq hp⟩
    | some j =>
      have hlt := hh j (.inr hp)
      have hd : s.calls[j]? = some s.calls[j] := List.getElem?_eq_getElem hlt
      exact ⟨j, _, hd, Pc.enabled_of_holdsPending ((hm j _ hd).2.mpr hp) hq⟩

def remainingSteps : List Call → Nat
  | [] => 0
  | c :: cs => c.pc.remaining + remainingSteps cs

theorem remainingSteps_set {l : List Call} {k : Nat} {c : Call} (hc : l[k]? = some c) (d : Call) :
    remainingSteps (l.set k d) + c.pc.remaining = remainingSteps l + d.pc.remaining := by
  induction l generalizing k with
  | nil => cases hc
  | cons e es ih =>
    cases k with
    | zero =>
      obtain rfl : e = c := Option.some.inj (by rwa [List.getElem?_cons_zero] at hc)
      simp only [List.set_cons_zero, remainingSteps]
      omega
    | succ k =>
      have := ih (by rwa [List.getElem?_cons_succ] at hc)
      simp only [List.set_cons_succ, remainingSteps]
      omega

theorem remainingSteps_step_lt {s : OsrmImpl} {k : Nat} {c : Call} (hc : s.calls[k]? = some c)
    (hen : c.pc.enabled s.barrier = true) :
    remainingSteps (s.step k).calls < remainingSteps s.calls := by
  have hset := remainingSteps_set hc (c.step s.shared k s.barrier).2
  have hlt := Call.step_advances s.shared k hen
  simp only [step, hc]
  omega

/-- From a state where both mutex invariants hold, some schedule finishes every call. -/
theorem exists_finishing (n : Nat) :
    ∀ s : OsrmImpl, remainingSteps s.calls = n → s.shared = true → s.MutexInv → s.HolderInv →
      ∃ more, ∀ c ∈ (s.exec more).calls, ∃ r, c.pc = .done r := by
  induction n using Nat.strong_induction_on with
  | _ n ih =>
    intro s hn hs hm hh
    by_cases hall : ∀ c ∈ s.calls, ∃ r, c.pc = .done r
    · exact ⟨[], hall⟩
    push_neg at hall
    obtain ⟨k, c, hc, hen⟩ := exists_enabled hm hh hall
    obtain ⟨more, hmore⟩ := ih _ (hn ▸ remainingSteps_step_lt hc hen) (s.step k) rfl
      (by rwa [step_shared]) (step_mutexInv k hs hm) (step_holderInv k hh)
    exact ⟨k :: more, hmore⟩

/-- Under every schedule the `RunQuery` calls can still all run to their end: some further
schedule finishes every call, and `number_of_queries` is then the number of calls that raised,
so it is back at 0 exactly when none did. -/
theorem exec_completes (requests : List Request) (schedule : List Nat) :
    ∃ more, (∀ c ∈ ((start true requests).exec (schedule ++ more)).calls, ∃ r, c.pc = .done r) ∧
      ((start true requests).exec (schedule ++ more)).barrier.numberOfQueries =
        ((start true requests).exec (schedule ++ more)).calls.countP (·.pc = .done .raised) := by
  have hs : ((start true requests).exec schedule).shared = true :=
    exec_induction (fun s => s.shared = true) (fun s i hs _ => (step_shared s i).trans hs) rfl rfl
      schedule
  obtain ⟨more, hdone⟩ := exists_finishing _ _ rfl hs
    (exec_induction MutexInv (fun _ i hs h => step_mutexInv i hs h) rfl
      (start_mutexInv true requests) schedule)
    (exec_induction HolderInv (fun _ i _ h => step_holderInv i h) rfl
      (start_holderInv true requests) schedule)
  refine ⟨more, by rwa [exec_append], ?_⟩
  have hcount : CounterInv ((start true requests).exec (schedule ++ more)) :=
    exec_induction CounterInv (fun _ i hs h => step_counterInv i hs h) rfl
      (start_counterInv true requests) _
  rw [hcount]
  congr 1
  refine List.countP_congr fun c hc => ?_
  obtain ⟨r, hr⟩ := hdone c (by rwa [← exec_append])
  cases r <;> simp [hr, Pc.counted]

end OsrmImpl

/-- One `RunQuery` call in shared-memory mode whose `HandleRequest` raises, run to its end:
it finds the counter at 0 and leaves it at 1, with no call under way. -/
theorem raising_request_leaks_count :
    ((OsrmImpl.start true [⟨true, false, .raised⟩]).exec [0, 0, 0, 0, 0, 0, 0]).calls.map (·.pc) =
        [.done .raised] ∧
      ((OsrmImpl.start true [⟨true, false, .raised⟩]).exec [0, 0, 0, 0, 0, 0, 0]).barrier.numberOfQueries =
        1 :=
  ⟨rfl, rfl⟩

end OsrmNutiteq.Osrm
