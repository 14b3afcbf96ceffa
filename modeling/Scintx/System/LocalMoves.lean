/-
Scintx.System.LocalMoves — all that a step of a gateway in local mode can
do, said once.

`localStep` is a function; `LocalMove` lists its results with the call
each one makes. No store call is assumed to succeed. Every property of a
step goes by cases on it.
-/
import Scintx.System.Local

namespace Scintx.System

open Scintx.Lib Scintx.Api Scintx.Store Scintx.Orchestrator Scintx.Workers Scintx.Server

section Given

variable [GoStd] (o : Orchestrator) (s : LocalState)

inductive LocalMove : LocalAction → LocalState → Prop
  | refused {req : CreateRequest} {hash id : String} {now : Time} (answer : Response) :
      LocalMove (.create req hash id now) (s.spawn (.handler (.answered answer)))
  | create {req req' : CreateRequest} {hash id : String} {now : Time} (hnew : id ∉ s.issued)
      (hcheck : checkCreate req = .ok req') :
      LocalMove (.create req hash id now)
        ({ s with issued := id :: s.issued }.spawn
          (.handler (.createReserve req'.idempotencyKey hash (newSubmission req' id now))))
  | resume (id : String) : LocalMove (.resume id) (s.spawn (.handler (.resumeClaim id)))
  | adjudicate (id : String) (req : AdjudicateRequest) :
      LocalMove (.adjudicate id req) (s.spawn (.handler (.adjudicateGet id req)))
  | handler {i : Nat} {ch : HandlerChoice} {h h' : Handler} {pool : LocalPool} {world : World}
      (hi : s.threads[i]? = some (.handler h))
      (hcall : h.step localDispatcher ch s.pool s.world = some (pool, world, h')) :
      LocalMove (.handler i ch)
        { s with pool := pool, world := world, threads := s.threads.set i (.handler h') }
  | take {k : Nat} {env : RunEnv} {id : String} {pool : LocalPool}
      (htake : s.pool.take k = some (id, pool)) :
      LocalMove (.take k env) ({ s with pool := pool }.spawn (.worker { subID := id } env))
  | run {i : Nat} {ch : Choice} {r r' : Run} {env : RunEnv} {world : World}
      (hi : s.threads[i]? = some (.worker r env))
      (hcall : r.step o env ch s.world = some (world, r')) :
      LocalMove (.run i ch)
        { s with world := world, threads := s.threads.set i (.worker r' env) }
  | finish {i : Nat} {r : Run} {env : RunEnv} {pool : LocalPool}
      (hi : s.threads[i]? = some (.worker r env)) (hfin : runFinished r = true)
      (hpool : s.pool.finish r.subID = some pool) :
      LocalMove (.finish i) { s with pool := pool, threads := s.threads.set i .ended }
  | close : LocalMove .close { s with pool := s.pool.close }

variable {o s} {s' : LocalState}

theorem localStep_move {a : LocalAction} (h : localStep o a s = some s') :
    LocalMove o s a s' := by
  cases a with
  | create req hash id now =>
    simp only [localStep] at h
    split at h
    · cases h
    · rename_i hnew
      split at h <;> cases h
      · exact .refused _
      · rename_i hcheck
        exact .create hnew hcheck
  | resume id =>
    cases h
    exact .resume id
  | adjudicate id req =>
    cases h
    exact .adjudicate id req
  | handler i ch =>
    simp only [localStep] at h
    split at h
    · rename_i hi
      obtain ⟨⟨pool, world, h'⟩, hcall, rfl⟩ := Option.map_eq_some_iff.mp h
      exact .handler hi hcall
    · cases h
  | take k env =>
    obtain ⟨⟨id, pool⟩, htake, rfl⟩ := Option.map_eq_some_iff.mp h
    exact .take htake
  | run i ch =>
    simp only [localStep] at h
    split at h
    · rename_i hi
      obtain ⟨⟨world, r'⟩, hcall, rfl⟩ := Option.map_eq_some_iff.mp h
      exact .run hi hcall
    · cases h
  | finish i =>
    simp only [localStep] at h
    split at h
    · rename_i hi
      split at h
      · rename_i hfin
        obtain ⟨pool, hpool, rfl⟩ := Option.map_eq_some_iff.mp h
        exact .finish hi hfin hpool
      · cases h
    · cases h
  | close =>
    cases h
    exact .close

end Given

end Scintx.System
