import Mathlib.Logic.Relation
import Mathlib.Tactic.Common

/-!
Commands with exceptions. A command ends normally, with an exception, or by ending the
program. An exception in the body of a `tryCatch` is handled or, where trying means trying
again, has the body run once more.
-/

namespace EventLoop.Exceptions

open Relation

variable {π σ ε : Type*}

/-- A call computes which procedure it calls, as a call through a pointer does. -/
inductive Cmd (π σ ε : Type*) where
  | skip
  | act (f : σ → σ)
  | seq (first second : Cmd π σ ε)
  | ite (cond : σ → Bool) (yes no : Cmd π σ ε)
  | loop (cond : σ → Bool) (body : Cmd π σ ε)
  | call (proc : σ → π)
  | throw (value : σ → ε)
  | tryCatch (body : Cmd π σ ε) (assign : ε → σ → σ) (handler : Cmd π σ ε)
  | exit (code : Int)

inductive Outcome (ε : Type*) where
  | normal
  | thrown (e : ε)
  | exited (code : Int)
deriving DecidableEq, Repr

/-- What becomes of an exception in the body of a `tryCatch`. -/
inductive Policy where
  | handle
  | retry
deriving DecidableEq, Repr

/-- `Exec policy procs c s o s'`: the command, run in `s`, ends with `o` in `s'`. -/
inductive Exec (policy : Policy) (procs : π → Cmd π σ ε) :
    Cmd π σ ε → σ → Outcome ε → σ → Prop where
  | skip (s) : Exec policy procs .skip s .normal s
  | act (f s) : Exec policy procs (.act f) s .normal (f s)
  | seq {first second s s' o s''} (hfirst : Exec policy procs first s .normal s')
      (hsecond : Exec policy procs second s' o s'') :
      Exec policy procs (.seq first second) s o s''
  | seqAbrupt {first second s o s'} (hfirst : Exec policy procs first s o s')
      (ho : o ≠ .normal) : Exec policy procs (.seq first second) s o s'
  | ite {cond yes no s o s'} (h : Exec policy procs (if cond s then yes else no) s o s') :
      Exec policy procs (.ite cond yes no) s o s'
  | loopDone {cond body s} (hcond : cond s = false) :
      Exec policy procs (.loop cond body) s .normal s
  | loopTurn {cond body s o s'} (hcond : cond s = true)
      (h : Exec policy procs (.seq body (.loop cond body)) s o s') :
      Exec policy procs (.loop cond body) s o s'
  | call {proc s o s'} (h : Exec policy procs (procs (proc s)) s o s') :
      Exec policy procs (.call proc) s o s'
  | throw (value s) : Exec policy procs (.throw value) s (.thrown (value s)) s
  | exit (code s) : Exec policy procs (.exit code) s (.exited code) s
  | tryDone {body assign handler s o s'} (hbody : Exec policy procs body s o s')
      (ho : ∀ e, o ≠ .thrown e) : Exec policy procs (.tryCatch body assign handler) s o s'
  | tryHandled {body assign handler s e s' o s''} (hpolicy : policy = .handle)
      (hbody : Exec policy procs body s (.thrown e) s')
      (hhandler : Exec policy procs handler (assign e s') o s'') :
      Exec policy procs (.tryCatch body assign handler) s o s''
  | tryAgain {body assign handler s e s' o s''} (hpolicy : policy = .retry)
      (hbody : Exec policy procs body s (.thrown e) s')
      (hagain : Exec policy procs (.tryCatch body assign handler) s' o s'') :
      Exec policy procs (.tryCatch body assign handler) s o s''

/-- No exception comes out of the command, if none comes out of the procedures in `quiet`: it
throws, and calls any other procedure, only in the body of a `tryCatch`. -/
def Contained (quiet : Set π) : Cmd π σ ε → Prop
  | .skip | .act _ | .exit _ => True
  | .seq first second => Contained quiet first ∧ Contained quiet second
  | .ite _ yes no => Contained quiet yes ∧ Contained quiet no
  | .loop _ body => Contained quiet body
  | .call proc => ∀ s, proc s ∈ quiet
  | .throw _ => False
  | .tryCatch _ _ handler => Contained quiet handler

variable {policy : Policy} {procs : π → Cmd π σ ε} {quiet : Set π} {c : Cmd π σ ε}
  {o : Outcome ε} {s s' : σ}

/-- A contained command never ends with an exception. -/
theorem Exec.not_thrown (h : Exec policy procs c s o s')
    (hquiet : ∀ p ∈ quiet, Contained quiet (procs p)) (hc : Contained quiet c) (e : ε) :
    o ≠ .thrown e := by
  induction h with
  | skip | act | loopDone | exit => simp
  | seq _ _ _ ihsecond => exact ihsecond hc.2
  | seqAbrupt _ _ ih => exact ih hc.1
  | @ite cond _ _ s _ _ _ ih =>
      apply ih
      split
      · exact hc.1
      · exact hc.2
  | loopTurn _ _ ih => exact ih ⟨hc, hc⟩
  | call _ ih => exact ih (hquiet _ (hc _))
  | throw => exact hc.elim
  | tryDone _ ho _ => exact ho e
  | tryHandled _ _ _ _ ih => exact ih hc
  | tryAgain _ _ _ _ ih => exact ih hc

theorem exec_call_iff (proc : σ → π) :
    Exec policy procs (.call proc) s o s' ↔ Exec policy procs (procs (proc s)) s o s' := by
  constructor
  · intro hexec
    cases hexec with
    | call h => exact h
  · exact .call

/-- The command, run in `s`, ends with an exception in `s'`. -/
def Throws (policy : Policy) (procs : π → Cmd π σ ε) (c : Cmd π σ ε) (s s' : σ) : Prop :=
  ∃ e, Exec policy procs c s (.thrown e) s'

/-- Where trying means trying again, the body is run until it ends without an exception. -/
theorem exec_tryCatch_retry_iff {body handler : Cmd π σ ε} {assign : ε → σ → σ} :
    Exec .retry procs (.tryCatch body assign handler) s o s' ↔
      ∃ mid, ReflTransGen (Throws .retry procs body) s mid ∧ Exec .retry procs body mid o s' ∧
        ∀ e, o ≠ .thrown e := by
  constructor
  · intro hexec
    generalize htry : Cmd.tryCatch body assign handler = c at hexec
    induction hexec with
    | @tryDone _ _ _ s _ _ hbody ho =>
        cases htry
        exact ⟨s, .refl, hbody, ho⟩
    | tryHandled hpolicy => cases hpolicy
    | @tryAgain _ _ _ _ e _ _ _ _ hbody _ _ ihagain =>
        cases htry
        obtain ⟨mid, hthrows, hlast⟩ := ihagain rfl
        exact ⟨mid, .head ⟨e, hbody⟩ hthrows, hlast⟩
    | _ => cases htry
  · rintro ⟨mid, hthrows, hbody, ho⟩
    induction hthrows using ReflTransGen.head_induction_on with
    | refl => exact .tryDone hbody ho
    | head hthrow _ ih =>
        obtain ⟨e, hthrow⟩ := hthrow
        exact .tryAgain rfl hthrow ih

end EventLoop.Exceptions
