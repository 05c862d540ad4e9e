/-
# Runs of scripts

A script can run in as many ways as its requests can be replied to. A run is told by its log, which
holds each request with its reply in order, and by its outcome. What always holds of a script is what
holds of all its runs in which the host writes what it is asked to write, whatever else it replies.
-/

import Shanty.Host

namespace Shanty

open Host

/-- A request and the reply to it. -/
structure Exchange where
  request : Request
  reply : request.Reply

/-- The host did not refuse to write something. -/
def Exchange.Granted : Exchange → Prop
  | ⟨.makeFolder _, reply⟩ => reply = .ok ()
  | ⟨.write _ _, reply⟩ => reply = .ok ()
  | _ => True

namespace Script

variable {α β : Type}

/-- A script runs with a log to an outcome. -/
inductive Runs : Script α → List Exchange → Except Fault α → Prop
  | done {result : α} : Runs (.done result) [] (.ok result)
  | broken {fault : Fault} : Runs (.broken fault) [] (.error fault)
  | ask {request : Request} {rest : request.Reply → Script α} {reply : request.Reply}
      {log : List Exchange} {outcome : Except Fault α} :
      Runs (rest reply) log outcome → Runs (.ask request rest) (⟨request, reply⟩ :: log) outcome

/-- With a host that writes all it is asked to write, whatever state it keeps, a script runs in such a
way. -/
theorem exists_runs_of_run {σ : Type} {answer : (request : Request) → StateM σ request.Reply}
    (hgrants : ∀ request state, Exchange.Granted ⟨request, (answer request state).1⟩)
    (script : Script α) (state : σ) :
    ∃ log, script.Runs log (Script.run answer script state).1 ∧
      ∀ exchange ∈ log, exchange.Granted := by
  induction script generalizing state with
  | done => exact ⟨[], .done, by simp⟩
  | broken => exact ⟨[], .broken, by simp⟩
  | ask request rest ih =>
      obtain ⟨log, hruns, hlog⟩ := ih (answer request state).1 (answer request state).2
      exact ⟨_, .ask hruns, List.forall_mem_cons.2 ⟨hgrants request state, hlog⟩⟩

/-- A run of two scripts, one after the other, is a run of the first and then one of the second, unless
the first breaks off. -/
theorem Runs.exists_of_bind {script : Script α} {next : α → Script β} {log : List Exchange}
    {outcome : Except Fault β} (hruns : (script.bind next).Runs log outcome) :
    (∃ fault, outcome = .error fault ∧ script.Runs log (.error fault)) ∨
      ∃ front back result, log = front ++ back ∧ script.Runs front (.ok result) ∧
        (next result).Runs back outcome := by
  induction script generalizing log with
  | done result => exact .inr ⟨[], log, result, rfl, .done, hruns⟩
  | broken fault =>
      cases hruns
      exact .inl ⟨fault, rfl, .broken⟩
  | ask request rest ih =>
      cases hruns with
      | ask hrest =>
          rcases ih _ hrest with ⟨fault, rfl, hfault⟩ | ⟨front, back, result, rfl, hfront, hback⟩
          · exact .inl ⟨fault, rfl, .ask hfault⟩
          · exact .inr ⟨_ :: front, back, result, rfl, .ask hfront, hback⟩

/-- Whenever the host writes what it is asked to write, the script succeeds, and something holds of its
log and its result. -/
def Always (script : Script α) (post : List Exchange → α → Prop) : Prop :=
  ∀ log outcome, script.Runs log outcome → (∀ exchange ∈ log, exchange.Granted) →
    ∃ result, outcome = .ok result ∧ post log result

namespace Always

variable {post : List Exchange → α → Prop} {final : List Exchange → β → Prop}

theorem done {result : α} (hpost : post [] result) : (Script.done result).Always post := by
  intro log outcome hruns _
  cases hruns
  exact ⟨result, rfl, hpost⟩

theorem ask {request : Request} {rest : request.Reply → Script α}
    (hrest : ∀ reply, Exchange.Granted ⟨request, reply⟩ →
      (rest reply).Always fun log => post (⟨request, reply⟩ :: log)) :
    (Script.ask request rest).Always post := by
  intro log outcome hruns hlog
  cases hruns with
  | ask hruns =>
      obtain ⟨hreply, hlog⟩ := List.forall_mem_cons.1 hlog
      exact hrest _ hreply _ _ hruns hlog

theorem mono {post' : List Exchange → α → Prop} {script : Script α} (halways : script.Always post)
    (himp : ∀ log result, post log result → post' log result) : script.Always post' := by
  intro log outcome hruns hlog
  obtain ⟨result, houtcome, hpost⟩ := halways log outcome hruns hlog
  exact ⟨result, houtcome, himp log result hpost⟩

/-- What holds of a first script can be used about the next one, which is given its result. -/
theorem bind {script : Script α} {next : α → Script β} (hscript : script.Always post)
    (hnext : ∀ front result, post front result →
      (next result).Always fun back => final (front ++ back)) :
    (script.bind next).Always final := by
  intro log outcome hruns hlog
  rcases hruns.exists_of_bind with ⟨fault, rfl, hfault⟩ | ⟨front, back, result, rfl, hfront, hback⟩
  · obtain ⟨_, hresult, _⟩ := hscript log _ hfault hlog
    cases hresult
  · obtain ⟨hfrontLog, hbackLog⟩ := List.forall_mem_append.1 hlog
    obtain ⟨_, hresult, hpost⟩ := hscript front _ hfront hfrontLog
    cases hresult
    exact hnext front result hpost back outcome hback hbackLog

end Always

end Script

end Shanty
