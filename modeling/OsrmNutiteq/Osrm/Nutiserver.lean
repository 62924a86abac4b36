import OsrmNutiteq.Osrm.QueryCount

/-! # `OSRM_impl` in the NUTISERVER build

The NUTISERVER branch of the constructor registers the `NutiViaRoutePlugin` alone and never
sets `barrier`, so both counter functions return at once and the `RunQuery` calls share
nothing: each answers from its own steps.
-/
namespace OsrmNutiteq.Osrm

/-! ## `plugin_map` -/

/-- `plugin_map`: the plugin registered under each descriptor. -/
def PluginMap (P : Type) : Type := String → Option P

def PluginMap.empty {P : Type} : PluginMap P := fun _ => none

/-- `RegisterPlugin`: `plugin_map[plugin_ptr->GetDescriptor()] = std::move(plugin_ptr)`, which
replaces a plugin registered before under the same descriptor. -/
def registerPlugin {P : Type} (getDescriptor : P → String) (m : PluginMap P) (p : P) :
    PluginMap P :=
  fun service => if service = getDescriptor p then some p else m service

section Register
variable {P : Type} (getDescriptor : P → String) (m : PluginMap P) (p : P)

@[simp] theorem registerPlugin_self : registerPlugin getDescriptor m p (getDescriptor p) = some p :=
  if_pos rfl

theorem registerPlugin_ne {service : String} (h : service ≠ getDescriptor p) :
    registerPlugin getDescriptor m p service = m service :=
  if_neg h

end Register

inductive Plugin where
  | nutiViaRoute
  deriving DecidableEq, Repr

/-- `GetDescriptor`: the `descriptor_string` the constructor sets. -/
def Plugin.getDescriptor : Plugin → String
  | .nutiViaRoute => "viaroute"

/-- `plugin_map` after the NUTISERVER branch of `OSRM_impl::OSRM_impl`. -/
def nutiserverPlugins : PluginMap Plugin :=
  registerPlugin Plugin.getDescriptor PluginMap.empty .nutiViaRoute

theorem nutiserverPlugins_isSome (service : String) :
    (nutiserverPlugins service).isSome = decide (service = "viaroute") := by
  by_cases h : service = "viaroute"
  · subst h
    rfl
  · rw [nutiserverPlugins, registerPlugin_ne _ _ _ h]
    simp [PluginMap.empty, h]

/-- The `RunQuery` call for `service`: whether `plugin_map.find` finds it, and what the world
does during the call. -/
def runQueryRequest {P : Type} (m : PluginMap P) (service : String) (reloadRaises : Bool)
    (handleRequest : Outcome) : Request :=
  ⟨(m service).isSome, reloadRaises, handleRequest⟩

/-! ## Calls without `barrier` -/

def Pc.unshared : Pc → Bool
  | .start | .handle | .done _ => true
  | _ => false

namespace Call

theorem step_unshared {i : Nat} {b : Barrier} {c : Call} (h : c.pc.unshared = true) :
    (c.step false i b).1 = b ∧ (c.step false i b).2.pc.unshared = true := by
  unfold step
  split <;> (try split) <;> simp_all [Pc.unshared]

def localRun (i n : Nat) (c : Call) : Call :=
  (fun c : Call => (c.step false i ⟨none, none, 0⟩).2)^[n] c

theorem localRun_succ (i n : Nat) (c : Call) :
    localRun i (n + 1) c = ((localRun i n c).step false i ⟨none, none, 0⟩).2 :=
  Function.iterate_succ_apply' _ _ _

theorem localRun_unshared (i n : Nat) {c : Call} (h : c.pc.unshared = true) :
    (localRun i n c).pc.unshared = true := by
  induction n with
  | zero => exact h
  | succ n ih => rw [localRun_succ]; exact (step_unshared ih).2

/-- How a call without `barrier` answers: with its `HandleRequest`'s outcome when its service
is found, and otherwise with 400 and the status message "Service not found". -/
def unsharedAnswer (r : Request) : Call :=
  ⟨r, .done (if r.serviceFound then r.handleRequest else .returned 400),
    if r.serviceFound then none else some "Service not found"⟩

theorem localRun_answers (i n : Nat) (r : Request) :
    localRun i (n + 2) ⟨r, .start, none⟩ = unsharedAnswer r := by
  obtain ⟨found, reload, out⟩ := r
  have h2 : localRun i 2 ⟨⟨found, reload, out⟩, .start, none⟩ = unsharedAnswer ⟨found, reload, out⟩ := by
    cases found <;> cases out <;> rfl
  have hfix : ((unsharedAnswer ⟨found, reload, out⟩).step false i ⟨none, none, 0⟩).2 =
      unsharedAnswer ⟨found, reload, out⟩ := by
    cases found <;> rfl
  rw [localRun, Function.iterate_add_apply]
  exact (congrArg _ h2).trans (Function.iterate_fixed hfix n)

end Call

namespace OsrmImpl

theorem exec_shared (s : OsrmImpl) (schedule : List Nat) : (s.exec schedule).shared = s.shared := by
  induction schedule generalizing s with
  | nil => rfl
  | cons i is ih => rw [exec_cons, ih, step_shared]

/-- Without `barrier`, under every schedule, the barrier is as it started, and each call is
where as many steps of its own as the schedule gives it take it. -/
theorem exec_unshared (requests : List Request) (schedule : List Nat) :
    ((start false requests).exec schedule).barrier = ⟨none, none, 0⟩ ∧
      ∀ j, ((start false requests).exec schedule).calls[j]? =
        requests[j]?.map fun r => Call.localRun j (schedule.count j) ⟨r, .start, none⟩ := by
  induction schedule using List.reverseRecOn with
  | nil => exact ⟨rfl, fun j => by simp [start, Call.localRun]⟩
  | append_singleton l i ih =>
    obtain ⟨hb, hcalls⟩ := ih
    have hsh : ((start false requests).exec l).shared = false := exec_shared _ l
    rw [exec_append, exec_cons, exec_nil]
    generalize (start false requests).exec l = s at hb hcalls hsh
    unfold step
    split
    next hnone =>
      -- there is no call `i`: nothing moves
      have hr : requests[i]? = none := by simpa [hcalls i] using hnone
      refine ⟨hb, fun j => ?_⟩
      rw [hcalls j]
      by_cases hji : j = i
      · rw [hji, hr]
        rfl
      · simp [List.count_append, List.count_singleton, Ne.symm hji]
    next c hc =>
      -- call `i` takes its next step, and the others stay
      obtain ⟨r, hr, rfl⟩ := Option.map_eq_some'.mp ((hcalls i).symm.trans hc)
      have hu := Call.step_unshared (i := i) (b := s.barrier)
        (Call.localRun_unshared i (l.count i) (c := ⟨r, .start, none⟩) rfl)
      simp only [hsh]
      refine ⟨hu.1.trans hb, fun j => ?_⟩
      by_cases hji : j = i
      · subst hji
        have hlt : j < s.calls.length := (List.getElem?_eq_some_iff.mp hc).1
        rw [List.getElem?_set_self hlt, hr, Option.map_some', List.count_append,
          List.count_singleton_self, Call.localRun_succ, hb]
      · rw [List.getElem?_set_ne (Ne.symm hji), hcalls j]
        simp [List.count_append, List.count_singleton, Ne.symm hji]

end OsrmImpl

/-- In the NUTISERVER build, for `RunQuery` calls on any services and under every schedule,
the barrier is never touched (both mutexes free, `number_of_queries` at 0), and a call that
has had two steps has answered, whatever the other calls did: with how its `HandleRequest`
ended when its service is "viaroute", and otherwise with 400 and the status message
"Service not found". -/
theorem nutiserver_calls_independent (services : List (String × Bool × Outcome))
    (schedule : List Nat) :
    let requests := services.map fun q => runQueryRequest nutiserverPlugins q.1 q.2.1 q.2.2
    ((OsrmImpl.start false requests).exec schedule).barrier = ⟨none, none, 0⟩ ∧
      ∀ j service reloadRaises outcome, services[j]? = some (service, reloadRaises, outcome) →
        2 ≤ schedule.count j →
        ((OsrmImpl.start false requests).exec schedule).calls[j]? = some
          ⟨runQueryRequest nutiserverPlugins service reloadRaises outcome,
            .done (if service = "viaroute" then outcome else .returned 400),
            if service = "viaroute" then none else some "Service not found"⟩ := by
  intro requests
  obtain ⟨hb, hcalls⟩ := OsrmImpl.exec_unshared requests schedule
  refine ⟨hb, fun j service reloadRaises outcome hj hcount => ?_⟩
  obtain ⟨n, hn⟩ : ∃ n, schedule.count j = n + 2 := ⟨schedule.count j - 2, by omega⟩
  rw [hcalls j, List.getElem?_map, hj, Option.map_some', Option.map_some', hn,
    Call.localRun_answers]
  by_cases h : service = "viaroute" <;>
    simp [h, Call.unsharedAnswer, runQueryRequest, nutiserverPlugins_isSome]

end OsrmNutiteq.Osrm
