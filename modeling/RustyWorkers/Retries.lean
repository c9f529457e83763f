/-
The three attempts of `Scheduler::handle_request`
(`rusty-workers-proxy/src/sched.rs`) and the dead handles of a ready queue.

An attempt that meets a dead handle, of a worker that the runtime has evicted or
of a runtime that is gone, makes the loop go round, and the loop goes round three
times. Nothing bounds how many dead handles are at the front of a ready queue, so
a request fails when its third attempt meets one, and only then: as long as
there is a runtime to spawn on, spawning succeeds and live workers respond, it
returns what a worker has responded otherwise, as far as the crate `http` takes it.
-/
import RustyWorkers.RuntimePool

set_option autoImplicit false

namespace RustyWorkers

open Lib

namespace Sched

/-! ## The app of a request -/

/-- A request that has an app keeps it. -/
theorem Goes.app {s : State} {pc pc' : RequestPc} {b : RequestAction} (h : Goes s pc b pc') {app : ℕ}
    (hpc : pc.app = some app) {x : ℕ} (hpc' : pc'.app = some x) : x = app := by
  cases h with
  | look | ask | look_again => cases hpc
  | collect | pop | empty | choose | spawned | pool =>
    obtain rfl := Option.some.inj hpc
    exact (Option.some.inj hpc').symm
  | no_client | not_spawned | collect_pool | cancel => cases hpc'
  | disconnect =>
    obtain rfl := Option.some.inj hpc
    exact (next_attempt_app hpc').symm
  | fetched result =>
    obtain rfl := Option.some.inj hpc
    exact ((after_fetch_held _ _ _ result).1 _ hpc').symm

end Sched

namespace Cluster

/-- The places of a request that has an app, up to the response that it has. -/
inductive OnTrack : Option ResponseObject → Sched.RequestPc → Prop
  | collecting {app i : ℕ} (bound : i < 3) : OnTrack none (.collecting app i)
  | popping {app i : ℕ} (bound : i < 3) : OnTrack none (.popping app i)
  | choosing {app i : ℕ} (bound : i < 3) : OnTrack none (.choosing app i)
  | spawning {app i : ℕ} {rtid : RuntimeId} {client : Sched.Client} (bound : i < 3) :
      OnTrack none (.spawning app i rtid client)
  | fetching {app i : ℕ} {inst : Sched.ReadyInstance} (bound : i < 3) : OnTrack none (.fetching app i inst)
  | disconnecting {app i : ℕ} {inst : Sched.ReadyInstance} (bound : i < 3) :
      OnTrack none (.disconnecting app i inst)
  | pooling {app : ℕ} {inst : Sched.ReadyInstance} {res : ResponseObject} :
      OnTrack (some res) (.pooling app inst (.ok res))
  | pooled {app : ℕ} {res : ResponseObject} : OnTrack (some res) (.pooled app (.ok res))
  | ended {res : ResponseObject} : OnTrack (some res) (.ended (Sched.build_response res))

variable {conf : Config} {s s' : State} {r : ℕ}

theorem OnTrack.not_waiting {res : Option ResponseObject} {pc : Sched.RequestPc} (h : OnTrack res pc) :
    ∀ answered, pc ≠ .waiting answered := by
  cases h <;> simp

/-- Request `r` has the response of a worker in the run `as`. -/
def Responded (conf : Config) (r : ℕ) (s : State) (as : List Action) (x : ResponseObject) : Prop :=
  ∃ bs cs u, as = bs ++ .fetched r :: cs ∧ (machine conf).run s bs = some u
    ∧ (u.calls r).phase = .answered (.ok x)

theorem Responded.cons {a : Action} {as : List Action} {x : ResponseObject} (hs : s.step conf a = some s')
    (h : Responded conf r s' as x) : Responded conf r s (a :: as) x := by
  obtain ⟨bs, cs, u, rfl, hrun, hphase⟩ := h
  exact ⟨a :: bs, cs, u, rfl, (machine conf).run_cons_eq_some.2 ⟨s', hs, hrun⟩, hphase⟩

/-- The places on the track up to the end have an app. -/
theorem OnTrack.app {res : Option ResponseObject} {pc : Sched.RequestPc} (h : OnTrack res pc) :
    (∃ app, pc.app = some app) ∨ ∃ x, pc = .ended (Sched.build_response x) := by
  cases h with
  | ended => exact Or.inr ⟨_, rfl⟩
  | collecting | popping | choosing | spawning | fetching | disconnecting | pooling | pooled =>
    exact Or.inl ⟨_, rfl⟩

end Cluster

end RustyWorkers
