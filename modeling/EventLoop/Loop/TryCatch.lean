import EventLoop.Lib.Exceptions
import EventLoop.Lib.Iteration

/-!
The macros `Try`, `Catch` and `Throw` of `cexcept.h`, and their twins `TaskTry`, `TaskCatch` and
`TaskThrow` of `taskimpl.h`, on a stack of open statements. A jump buffer is a variable of the
statement that opened it and is named by the height of the stack there; the place it holds is the
return of `setjmp` or `getcontext`, which returns a second time when it is jumped to.
-/

namespace EventLoop.TryCatch

open EventLoop.Exceptions EventLoop.Iteration Relation

variable {π σ ε : Type*}

/-- What is still to be done. -/
inductive Frame (π σ ε : Type*) where
  | run (c : Cmd π σ ε)
  /-- `while (caught = 0, caught);` at the end of a Try clause. -/
  | tryEnd
  /-- The statement behind the return of `setjmp`: its Catch clause follows if `caught` is set.
  `prev` is `exception__prev`. -/
  | behind (prev : Option Nat) (body : Cmd π σ ε) (assign : ε → σ → σ) (handler : Cmd π σ ε)

/-- `struct exception_context` and what is open around it, the innermost first. -/
structure Thread (π σ ε : Type*) where
  frames : List (Frame π σ ε)
  store : σ
  penv : Option Nat
  caught : Bool
  etmp : ε

inductive Result (ε : Type*) where
  | finished
  | exited (code : Int)
  /-- A jump through what `penv` was before the first statement: `NULL`, or the context of the task
  itself. -/
  | outerJump (etmp : ε)
  /-- A jump to a statement that is not open any more. -/
  | deadJump
deriving DecidableEq, Repr

/-- The part of the stack that was there at this height. -/
def framesAt (height : Nat) (frames : List (Frame π σ ε)) : List (Frame π σ ε) :=
  if height ≤ frames.length then frames.drop (frames.length - height) else []

/-- The first return of `setjmp`, with 0: the Try clause follows. -/
def enterTry (body : Cmd π σ ε) (frames : List (Frame π σ ε)) : List (Frame π σ ε) :=
  .run body :: .tryEnd :: frames

/-- `longjmp(*penv, 1)`, or `setcontext(penv)`. The second return is as the policy says: not 0, so
that `caught` is set, or 0, so that the Try clause follows again. -/
def longjmp (policy : Policy) (t : Thread π σ ε) (height : Nat) :
    Thread π σ ε ⊕ (Result ε × σ) :=
  match framesAt height t.frames with
  | .behind prev body assign handler :: outer =>
      let frames := .behind prev body assign handler :: outer
      match policy with
      | .handle => .inl { t with frames, caught := true }
      | .retry => .inl { t with frames := enterTry body frames }
  | _ => .inr (.deadJump, t.store)

def step (policy : Policy) (procs : π → Cmd π σ ε) (t : Thread π σ ε) :
    Thread π σ ε ⊕ (Result ε × σ) :=
  match t.frames with
  | [] => .inr (.finished, t.store)
  | .run c :: rest =>
      match c with
      | .skip => .inl { t with frames := rest }
      | .act f => .inl { t with frames := rest, store := f t.store }
      | .seq first second => .inl { t with frames := .run first :: .run second :: rest }
      | .ite cond yes no => .inl { t with frames := .run (if cond t.store then yes else no) :: rest }
      | .loop cond body =>
          if cond t.store then .inl { t with frames := .run (.seq body (.loop cond body)) :: rest }
          else .inl { t with frames := rest }
      | .call proc => .inl { t with frames := .run (procs (proc t.store)) :: rest }
      | .exit code => .inr (.exited code, t.store)
      | .throw value =>
          let t := { t with frames := rest, etmp := value t.store }
          match t.penv with
          | none => .inr (.outerJump t.etmp, t.store)
          | some height => longjmp policy t height
      | .tryCatch body assign handler =>
          .inl { t with
            frames := enterTry body (.behind t.penv body assign handler :: rest)
            penv := some (rest.length + 1) }
  | .tryEnd :: rest => .inl { t with frames := rest, caught := false }
  | .behind prev _ assign handler :: rest =>
      let t := { t with penv := prev }
      if t.caught then
        .inl { t with frames := .run handler :: rest, store := assign t.etmp t.store }
      else .inl { t with frames := rest }

/-- A thread whose context `init_exception_context` has cleared. -/
def Thread.start (c : Cmd π σ ε) (store : σ) (caught : Bool) (etmp : ε) : Thread π σ ε :=
  ⟨[.run c], store, none, caught, etmp⟩

/-- What becomes of a thread whose program ends so. -/
def resultOf : Outcome ε → Result ε
  | .normal => .finished
  | .thrown e => .outerJump e
  | .exited code => .exited code

/-- `penv` holds the height of the innermost open statement, and each `exception__prev` that of the
next one. -/
inductive Chain : List (Frame π σ ε) → Option Nat → Prop where
  | nil : Chain [] none
  | run {frames p} (c : Cmd π σ ε) (h : Chain frames p) : Chain (.run c :: frames) p
  | tryEnd {frames p} (h : Chain frames p) : Chain (.tryEnd :: frames) p
  | behind {frames prev} (body : Cmd π σ ε) (assign : ε → σ → σ) (handler : Cmd π σ ε)
      (h : Chain frames prev) :
      Chain (.behind prev body assign handler :: frames) (some (frames.length + 1))

variable {frames : List (Frame π σ ε)} {frame : Frame π σ ε} {p : Option Nat} {height : Nat}

theorem framesAt_cons (h : height ≤ frames.length) :
    framesAt height (frame :: frames) = framesAt height frames := by
  rw [framesAt, framesAt, List.length_cons, if_pos h, if_pos (Nat.le_succ_of_le h),
    Nat.succ_sub h, List.drop_succ_cons]

/-- The statement that `penv` names is open. -/
theorem Chain.le_length (h : Chain frames (some height)) : height ≤ frames.length := by
  generalize hp : some height = p at h
  induction h with
  | nil => cases hp
  | run _ _ ih | tryEnd _ ih => exact Nat.le_succ_of_le (ih hp)
  | behind =>
      obtain rfl := Option.some.inj hp
      exact Nat.le_refl _

/-- The command that does nothing but end so. -/
def ofOutcome : Outcome ε → Cmd π σ ε
  | .normal => .skip
  | .thrown e => .throw (fun _ => e)
  | .exited code => .exit code

variable {policy : Policy} {procs : π → Cmd π σ ε} {c body handler : Cmd π σ ε}
  {assign : ε → σ → σ} {o : Outcome ε} {store store' : σ} {caught : Bool} {etmp e : ε}
  {r : Result ε × σ} {fuel : Nat}

section

variable {c₁ c₂ : Cmd π σ ε} {f : σ → σ} {cond : σ → Bool} {proc : σ → π} {prev : Option Nat}

theorem step_skip : step policy procs ⟨.run .skip :: frames, store, p, caught, etmp⟩ =
    .inl ⟨frames, store, p, caught, etmp⟩ := rfl

theorem step_act : step policy procs ⟨.run (.act f) :: frames, store, p, caught, etmp⟩ =
    .inl ⟨frames, f store, p, caught, etmp⟩ := rfl

theorem step_seq : step policy procs ⟨.run (.seq c₁ c₂) :: frames, store, p, caught, etmp⟩ =
    .inl ⟨.run c₁ :: .run c₂ :: frames, store, p, caught, etmp⟩ := rfl

theorem step_ite : step policy procs ⟨.run (.ite cond c₁ c₂) :: frames, store, p, caught, etmp⟩ =
    .inl ⟨.run (if cond store then c₁ else c₂) :: frames, store, p, caught, etmp⟩ := rfl

theorem step_loop_true (h : cond store = true) :
    step policy procs ⟨.run (.loop cond c) :: frames, store, p, caught, etmp⟩ =
      .inl ⟨.run (.seq c (.loop cond c)) :: frames, store, p, caught, etmp⟩ := by
  simp [step, h]

theorem step_loop_false (h : cond store = false) :
    step policy procs ⟨.run (.loop cond c) :: frames, store, p, caught, etmp⟩ =
      .inl ⟨frames, store, p, caught, etmp⟩ := by
  simp [step, h]

theorem step_call : step policy procs ⟨.run (.call proc) :: frames, store, p, caught, etmp⟩ =
    .inl ⟨.run (procs (proc store)) :: frames, store, p, caught, etmp⟩ := rfl

/-- The end of the program does not look at the rest of the thread. -/
theorem step_exited (code : Int) (frames' : List (Frame π σ ε)) (p' : Option Nat) :
    step policy procs ⟨.run (ofOutcome (.exited code)) :: frames, store, p, caught, etmp⟩ =
      step policy procs ⟨.run (ofOutcome (.exited code)) :: frames', store, p', caught, etmp⟩ := rfl

theorem step_throw {value : σ → ε} :
    step policy procs ⟨.run (.throw value) :: frames, store, p, caught, etmp⟩ =
      step policy procs
        ⟨.run (ofOutcome (.thrown (value store))) :: frames, store, p, caught, etmp⟩ := rfl

theorem step_try :
    step policy procs ⟨.run (.tryCatch body assign handler) :: frames, store, p, caught, etmp⟩ =
      .inl ⟨.run body :: .tryEnd :: .behind p body assign handler :: frames, store,
        some (frames.length + 1), caught, etmp⟩ := rfl

theorem step_tryEnd : step policy procs ⟨.tryEnd :: frames, store, p, caught, etmp⟩ =
    .inl ⟨frames, store, p, false, etmp⟩ := rfl

theorem step_behind_done :
    step policy procs ⟨.behind prev body assign handler :: frames, store, p, false, etmp⟩ =
      .inl ⟨frames, store, prev, false, etmp⟩ := rfl

theorem step_behind_caught :
    step policy procs ⟨.behind prev body assign handler :: frames, store, p, true, etmp⟩ =
      .inl ⟨.run handler :: frames, assign etmp store, prev, true, etmp⟩ := rfl

end

/-- An abrupt end does not look at the frames inside the innermost open statement. -/
theorem step_abrupt (hchain : Chain frames p) (ho : o ≠ .normal) :
    step policy procs ⟨.run (ofOutcome o) :: frame :: frames, store, p, caught, etmp⟩ =
      step policy procs ⟨.run (ofOutcome o) :: frames, store, p, caught, etmp⟩ := by
  cases o with
  | normal => exact absurd rfl ho
  | exited code => rfl
  | thrown e =>
      cases p with
      | none => rfl
      | some height =>
          simp only [step, ofOutcome, longjmp, framesAt_cons hchain.le_length]

/-- The innermost open statement, seen from its Try clause. -/
theorem framesAt_open (prev : Option Nat) :
    framesAt (frames.length + 1) (.tryEnd :: .behind prev body assign handler :: frames) =
      .behind prev body assign handler :: frames := by
  have hlength : frames.length + 1 ≤ (Frame.behind prev body assign handler :: frames).length :=
    Nat.le_refl _
  rw [framesAt_cons hlength, framesAt, if_pos hlength, List.length_cons, Nat.sub_self,
    List.drop_zero]

/-- A Throw in a Try clause that is handled comes to the Catch clause. -/
theorem step_throw_handle :
    step .handle procs ⟨.run (ofOutcome (.thrown e)) :: .tryEnd ::
        .behind p body assign handler :: frames, store, some (frames.length + 1), caught, etmp⟩ =
      .inl ⟨.behind p body assign handler :: frames, store, some (frames.length + 1), true, e⟩ := by
  simp only [step, ofOutcome, longjmp, framesAt_open]

/-- In one that is retried it comes to the Try clause again. -/
theorem step_throw_retry :
    step .retry procs ⟨.run (ofOutcome (.thrown e)) :: .tryEnd ::
        .behind p body assign handler :: frames, store, some (frames.length + 1), caught, etmp⟩ =
      step .retry procs
        ⟨.run (.tryCatch body assign handler) :: frames, store, p, caught, e⟩ := by
  simp only [step, ofOutcome, longjmp, framesAt_open, enterTry]

/-- What the commands do, the macros do: behind a command that ends with `o`, the thread goes on
as behind one that does nothing but end so. -/
theorem yields_of_exec (hexec : Exec policy procs c store o store') (hchain : Chain frames p)
    (hthen : ∀ caught etmp,
      Yields (step policy procs) ⟨.run (ofOutcome o) :: frames, store', p, caught, etmp⟩ r)
    (caught : Bool) (etmp : ε) :
    Yields (step policy procs) ⟨.run c :: frames, store, p, caught, etmp⟩ r := by
  induction hexec generalizing frames p caught etmp with
  | skip | exit => exact hthen caught etmp
  | act => exact (yields_of_inl step_act).mpr ((yields_of_inl step_skip).mp (hthen caught etmp))
  | @seq first second _ _ _ _ _ _ ihfirst ihsecond =>
      apply (yields_of_inl step_seq).mpr
      apply ihfirst (.run second hchain)
      intro caught etmp
      exact (yields_of_inl step_skip).mpr (ihsecond hchain hthen caught etmp)
  | @seqAbrupt first second _ _ _ _ ho ih =>
      apply (yields_of_inl step_seq).mpr
      apply ih (.run second hchain)
      intro caught etmp
      exact (yields_congr (step_abrupt hchain ho)).mpr (hthen caught etmp)
  | ite _ ih => exact (yields_of_inl step_ite).mpr (ih hchain hthen caught etmp)
  | loopDone hcond =>
      apply (yields_of_inl (step_loop_false hcond)).mpr
      exact (yields_of_inl step_skip).mp (hthen caught etmp)
  | loopTurn hcond _ ih =>
      exact (yields_of_inl (step_loop_true hcond)).mpr (ih hchain hthen caught etmp)
  | call _ ih => exact (yields_of_inl step_call).mpr (ih hchain hthen caught etmp)
  | throw => exact (yields_congr step_throw).mpr (hthen caught etmp)
  | @tryDone body assign handler _ o _ _ ho ih =>
      have hopen := Chain.behind body assign handler hchain
      apply (yields_of_inl step_try).mpr
      apply ih (.tryEnd hopen)
      intro caught etmp
      cases o with
      | normal =>
          -- past the end of the Try clause, with `caught` cleared
          apply (yields_of_inl step_skip).mpr
          apply (yields_of_inl step_tryEnd).mpr
          apply (yields_of_inl step_behind_done).mpr
          exact (yields_of_inl step_skip).mp (hthen false etmp)
      | thrown e => exact absurd rfl (ho e)
      | exited code =>
          exact (yields_congr (step_exited code frames p)).mpr (hthen caught etmp)
  | @tryHandled body assign handler _ e _ _ _ hpolicy _ _ ihbody ihhandler =>
      subst hpolicy
      have hopen := Chain.behind body assign handler hchain
      apply (yields_of_inl step_try).mpr
      apply ihbody (.tryEnd hopen)
      intro caught etmp
      apply (yields_of_inl step_throw_handle).mpr
      apply (yields_of_inl step_behind_caught).mpr
      exact ihhandler hchain hthen true e
  | @tryAgain body assign handler _ e _ _ _ hpolicy _ _ ihbody ihagain =>
      subst hpolicy
      have hopen := Chain.behind body assign handler hchain
      apply (yields_of_inl step_try).mpr
      apply ihbody (.tryEnd hopen)
      intro caught etmp
      exact (yields_congr step_throw_retry).mpr (ihagain hchain hthen caught e)

/-- The turns of a thread that comes to a result run its innermost command to an end. -/
theorem exists_exec_of_iterate (hchain : Chain frames p)
    (hrun : iterate (step policy procs) fuel ⟨.run c :: frames, store, p, caught, etmp⟩ = some r) :
    ∃ o store', Exec policy procs c store o store' ∧ ∃ fuel' ≤ fuel, ∃ caught' etmp',
      iterate (step policy procs) fuel' ⟨.run (ofOutcome o) :: frames, store', p, caught', etmp'⟩ =
        some r := by
  induction fuel using Nat.strong_induction_on generalizing c frames p store caught etmp with
  | _ fuel ih =>
      cases fuel with
      | zero => cases hrun
      | succ fuel =>
          have hinner := fun {c' frames' p' store' caught' etmp'} =>
            @ih fuel (Nat.lt_succ_self fuel) c' frames' p' store' caught' etmp'
          cases c with
          | skip => exact ⟨.normal, store, .skip store, _, Nat.le_refl _, caught, etmp, hrun⟩
          | act f =>
              exact ⟨.normal, f store, .act f store, _, Nat.le_refl _, caught, etmp, hrun⟩
          | exit code =>
              exact ⟨.exited code, store, .exit code store, _, Nat.le_refl _, caught, etmp, hrun⟩
          | throw value =>
              exact ⟨.thrown (value store), store, .throw value store, _, Nat.le_refl _, caught,
                etmp, hrun⟩
          | ite cond c₁ c₂ =>
              rw [iterate_of_inl step_ite] at hrun
              obtain ⟨o, store', hexec, fuel', hle, hrest⟩ := hinner hchain hrun
              exact ⟨o, store', .ite hexec, fuel', Nat.le_succ_of_le hle, hrest⟩
          | call proc =>
              rw [iterate_of_inl step_call] at hrun
              obtain ⟨o, store', hexec, fuel', hle, hrest⟩ := hinner hchain hrun
              exact ⟨o, store', .call hexec, fuel', Nat.le_succ_of_le hle, hrest⟩
          | loop cond body =>
              cases hcond : cond store with
              | true =>
                  rw [iterate_of_inl (step_loop_true hcond)] at hrun
                  obtain ⟨o, store', hexec, fuel', hle, hrest⟩ := hinner hchain hrun
                  exact ⟨o, store', .loopTurn hcond hexec, fuel', Nat.le_succ_of_le hle, hrest⟩
              | false =>
                  rw [iterate_of_inl (step_loop_false hcond)] at hrun
                  exact ⟨.normal, store, .loopDone hcond, _, Nat.le_refl _, caught, etmp,
                    (iterate_of_inl step_skip).trans hrun⟩
          | seq c₁ c₂ =>
              rw [iterate_of_inl step_seq] at hrun
              obtain ⟨o, mid, hfirst, fuel', hle, caught', etmp', hrest⟩ :=
                hinner (.run c₂ hchain) hrun
              by_cases ho : o = .normal
              · subst ho
                obtain ⟨fuel', rfl⟩ := exists_succ_of_iterate hrest
                rw [ofOutcome, iterate_of_inl step_skip] at hrest
                obtain ⟨o, store', hsecond, fuel'', hle', hthen⟩ :=
                  ih fuel' (by omega) hchain hrest
                exact ⟨o, store', .seq hfirst hsecond, fuel'', by omega, hthen⟩
              · rw [iterate_congr (step_abrupt hchain ho)] at hrest
                exact ⟨o, mid, .seqAbrupt hfirst ho, fuel', by omega, caught', etmp', hrest⟩
          | tryCatch body assign handler =>
              rw [iterate_of_inl step_try] at hrun
              obtain ⟨o, mid, hbody, fuel', hle, caught', etmp', hrest⟩ :=
                hinner (.tryEnd (.behind body assign handler hchain)) hrun
              cases o with
              | normal =>
                  obtain ⟨fuel', rfl⟩ := exists_succ_of_iterate hrest
                  rw [ofOutcome, iterate_of_inl step_skip] at hrest
                  obtain ⟨fuel', rfl⟩ := exists_succ_of_iterate hrest
                  rw [iterate_of_inl step_tryEnd] at hrest
                  obtain ⟨fuel', rfl⟩ := exists_succ_of_iterate hrest
                  rw [iterate_of_inl step_behind_done] at hrest
                  refine ⟨.normal, mid, .tryDone hbody (by simp), fuel' + 1, by omega, false, etmp',
                    ?_⟩
                  exact (iterate_of_inl step_skip).trans hrest
              | exited code =>
                  rw [iterate_congr (step_exited code frames p)] at hrest
                  exact ⟨.exited code, mid, .tryDone hbody (by simp), fuel', by omega, caught',
                    etmp', hrest⟩
              | thrown e =>
                  cases policy with
                  | handle =>
                      obtain ⟨fuel', rfl⟩ := exists_succ_of_iterate hrest
                      rw [iterate_of_inl step_throw_handle] at hrest
                      obtain ⟨fuel', rfl⟩ := exists_succ_of_iterate hrest
                      rw [iterate_of_inl step_behind_caught] at hrest
                      obtain ⟨o, store', hhandler, fuel'', hle', hthen⟩ :=
                        ih fuel' (by omega) hchain hrest
                      exact ⟨o, store', .tryHandled rfl hbody hhandler, fuel'', by omega, hthen⟩
                  | retry =>
                      rw [iterate_congr step_throw_retry] at hrest
                      obtain ⟨o, store', hagain, fuel'', hle', hthen⟩ :=
                        ih fuel' (by omega) hchain hrest
                      exact ⟨o, store', .tryAgain rfl hbody hagain, fuel'', by omega, hthen⟩

theorem yields_of_outcome (o : Outcome ε) :
    Yields (step policy procs) ⟨[.run (ofOutcome o)], store, none, caught, etmp⟩
      (resultOf o, store) := by
  cases o with
  | normal => exact (yields_of_inl step_skip).mpr (yields_of_inr rfl)
  | thrown e => exact yields_of_inr rfl
  | exited code => exact yields_of_inr rfl

/-- A thread does with the macros exactly what its command says, however the statements are nested
in one another and in the procedures that it calls, and never jumps to a statement that has
ended. -/
theorem yields_start_iff (policy : Policy) (procs : π → Cmd π σ ε) (c : Cmd π σ ε)
    (store store' : σ) (caught : Bool) (etmp : ε) (result : Result ε) :
    Yields (step policy procs) (Thread.start c store caught etmp) (result, store') ↔
      ∃ o, Exec policy procs c store o store' ∧ result = resultOf o := by
  constructor
  · rintro ⟨fuel, hrun⟩
    obtain ⟨o, mid, hexec, fuel', -, caught', etmp', hrest⟩ :=
      exists_exec_of_iterate Chain.nil hrun
    obtain ⟨rfl, rfl⟩ := Prod.mk.inj ((yields_of_outcome o).iterate_eq hrest)
    exact ⟨o, hexec, rfl⟩
  · rintro ⟨o, hexec, rfl⟩
    exact yields_of_exec hexec .nil (fun _ _ => yields_of_outcome o) caught etmp

theorem resultOf_injective : Function.Injective (resultOf (ε := ε)) := by
  intro o o' h
  cases o with
  | normal => cases o' with | normal => rfl | thrown | exited => cases h
  | thrown e => cases o' with | thrown e' => cases h; rfl | normal | exited => cases h
  | exited code => cases o' with | exited code' => cases h; rfl | normal | thrown => cases h

theorem yields_resultOf_iff (o : Outcome ε) :
    Yields (step policy procs) (Thread.start c store caught etmp) (resultOf o, store') ↔
      Exec policy procs c store o store' := by
  rw [yields_start_iff]
  constructor
  · rintro ⟨o', hexec, heq⟩
    exact resultOf_injective heq ▸ hexec
  · intro hexec
    exact ⟨o, hexec, rfl⟩

/-- The thread that does the command alone jumps out of it. -/
def JumpsOut (policy : Policy) (procs : π → Cmd π σ ε) (c : Cmd π σ ε) (caught : Bool) (etmp : ε)
    (store store' : σ) : Prop :=
  ∃ e, Yields (step policy procs) (Thread.start c store caught etmp) (.outerJump e, store')

theorem jumpsOut_iff {c : Cmd π σ ε} :
    JumpsOut policy procs c caught etmp store store' ↔ Throws policy procs c store store' :=
  exists_congr fun e => yields_resultOf_iff (.thrown e)

/-- Where `getcontext` returns 0 a second time, `TaskTry` does its clause over from what each
`TaskThrow` has left, until the clause ends without one, and its Catch clause is never done. -/
theorem taskTry_yields_iff (procs : π → Cmd π σ ε) (body handler : Cmd π σ ε)
    (assign : ε → σ → σ) (store store' : σ) (caught : Bool) (etmp : ε) (result : Result ε) :
    Yields (step .retry procs) (Thread.start (.tryCatch body assign handler) store caught etmp)
        (result, store') ↔
      ∃ mid, ReflTransGen (JumpsOut .retry procs body caught etmp) store mid ∧
        Yields (step .retry procs) (Thread.start body mid caught etmp) (result, store') ∧
        ∀ e, result ≠ .outerJump e := by
  have hjumps : JumpsOut .retry procs body caught etmp = Throws .retry procs body := by
    ext store store'
    exact jumpsOut_iff
  simp only [yields_start_iff, exec_tryCatch_retry_iff, hjumps]
  constructor
  · rintro ⟨o, ⟨mid, hthrows, hexec, ho⟩, rfl⟩
    refine ⟨mid, hthrows, ⟨o, hexec, rfl⟩, ?_⟩
    intro e
    cases o with
    | normal | exited => simp [resultOf]
    | thrown e' => exact absurd rfl (ho e')
  · rintro ⟨mid, hthrows, ⟨o, hexec, rfl⟩, hresult⟩
    refine ⟨o, ⟨mid, hthrows, hexec, ?_⟩, rfl⟩
    rintro e rfl
    exact hresult e rfl

end EventLoop.TryCatch
