import EventLoop.Task.Ownership

/-!
Which steps of the scheduler destroy a context, and which contexts it comes to: those it refers to,
and the one that a call goes to. A context that it has never come to is still at its entry. Nothing
is assumed of the user code.
-/

namespace EventLoop.Task

variable {s s' s'' : Scheduler} {ctx : Nat}

/-- The context that the call of `ifCompleted_task` in this frame, or behind it, is about. -/
def Frame.completing : Frame → Option Nat
  | .afterSwap ctx | .ifCompletedCallback ctx | .ifCompletedExit ctx => some ctx
  | .callbackOn _ | .sleeping _ | .exiting => none

/-- The context may still be destroyed by a library call that is open. -/
def InFrames (frames : List Frame) (ctx : Nat) : Prop := ∃ frame ∈ frames, frame.completing = some ctx

/-- The scheduler may come to the context without being given it again. -/
inductive Refers (s : Scheduler) (ctx : Nat) : Prop where
  | turn (h : s.curTaskCtx = some ctx)
  | default (h : s.defaultCtx = some ctx)
  | running (h : s.running = .task ctx)
  | frames (h : InFrames s.frames ctx)
  | saved (curCtx : Nat) {owner : Owner} {frames : List Frame}
      (hsaved : (s.ctxs curCtx).taskUc = .at owner frames)
      (h : owner = .task ctx ∨ InFrames frames ctx)

/-- The default context, made where there is none yet, has the turn. -/
def LoopInTurn (s : Scheduler) : Prop :=
  (makeDefaultTask s).curTaskCtx = (makeDefaultTask s).defaultCtx

/-- The guard of `switch2task` lets the call go to the context. -/
def Call.goesTo (s : Scheduler) (ctx : Nat) : Call → Prop
  | .startTask newCtx | .schedTask newCtx | .defaultloopHandlerForTask newCtx _ _ =>
      newCtx = ctx ∧ LoopInTurn s
  | .switch2task curCtx newCtx => newCtx = ctx ∧ s.curTaskCtx = some curCtx
  | _ => False

/-- What calls do that go to contexts such as `goes`: they destroy none, and leave those alone that
the scheduler does not refer to. -/
structure Extends (s s' : Scheduler) (goes : Nat → Prop) : Prop where
  made : s.made ≤ s'.made
  destroys : s'.destroys = s.destroys
  entry : ∀ ctx < s.made, ¬ Refers s ctx → (s'.ctxs ctx).taskUc = (s.ctxs ctx).taskUc
  refers : ∀ ctx, Refers s' ctx → Refers s ctx ∨ goes ctx ∨ s.made ≤ ctx ∧ ctx < s'.made

/-- What is done before a call goes anywhere. -/
theorem Extends.trans {goes : Nat → Prop} (h : Extends s s' (fun _ => False))
    (h' : Extends s' s'' goes) : Extends s s'' goes := by
  refine ⟨h.made.trans h'.made, h'.destroys.trans h.destroys, ?_, ?_⟩
  · intro ctx hmade hctx
    have hnot : ¬ Refers s' ctx := by
      intro hrefers
      rcases h.refers ctx hrefers with hold | hgoes | hnew
      · exact hctx hold
      · exact hgoes
      · exact absurd hnew.1 (Nat.not_le.mpr hmade)
    rw [h'.entry ctx (Nat.lt_of_lt_of_le hmade h.made) hnot, h.entry ctx hmade hctx]
  · intro ctx hctx
    rcases h'.refers ctx hctx with hctx | hgoes | hnew
    · rcases h.refers ctx hctx with hold | hgoes | hnew
      · exact .inl hold
      · exact hgoes.elim
      · exact .inr (.inr ⟨hnew.1, Nat.lt_of_lt_of_le hnew.2 h'.made⟩)
    · exact .inr (.inl hgoes)
    · exact .inr (.inr ⟨h.made.trans hnew.1, hnew.2⟩)

/-- `make_task` has made the context, and nothing has come to it. -/
structure AtEntry (s : Scheduler) (ctx : Nat) : Prop where
  made : ctx < s.made
  entry : (s.ctxs ctx).taskUc = .entry
  unreferred : ¬ Refers s ctx

theorem AtEntry.extends {goes : Nat → Prop} (h : AtEntry s ctx) (hext : Extends s s' goes)
    (hgoes : ¬ goes ctx) : AtEntry s' ctx := by
  refine ⟨Nat.lt_of_lt_of_le h.made hext.made, (hext.entry ctx h.made h.unreferred).trans h.entry, ?_⟩
  intro hrefers
  rcases hext.refers ctx hrefers with hold | hctx | hnew
  · exact h.unreferred hold
  · exact hgoes hctx
  · exact absurd hnew.1 (Nat.not_le.mpr h.made)

theorem Extends.mono {goes goes' : Nat → Prop} (h : Extends s s' goes)
    (hgoes : ∀ ctx, goes ctx → Refers s ctx ∨ goes' ctx) : Extends s s' goes' := by
  refine ⟨h.made, h.destroys, h.entry, ?_⟩
  intro ctx hctx
  rcases h.refers ctx hctx with hold | hctx | hnew
  · exact .inl hold
  · exact (hgoes ctx hctx).imp_right .inl
  · exact .inr (.inr hnew)

theorem refers_of_saved (hctx : Refers s' ctx) (hturn : s'.curTaskCtx = s.curTaskCtx)
    (hdefault : s'.defaultCtx = s.defaultCtx) (hrunning : s'.running = s.running)
    (hsaved : ∀ ctx, (s'.ctxs ctx).taskUc = (s.ctxs ctx).taskUc)
    (hframes : ∀ ctx, InFrames s'.frames ctx → Refers s ctx) : Refers s ctx := by
  cases hctx with
  | turn h => exact .turn (hturn.symm.trans h)
  | default h => exact .default (hdefault.symm.trans h)
  | running h => exact .running (hrunning.symm.trans h)
  | frames h => exact hframes ctx h
  | saved curCtx hat h => exact .saved curCtx ((hsaved curCtx).symm.trans hat) h

/-- A change that leaves every saved stack, and no more in the executing one. -/
theorem extends_of_saved {goes : Nat → Prop} (hmade : s'.made = s.made) (hdestroys : s'.destroys = s.destroys)
    (hturn : s'.curTaskCtx = s.curTaskCtx) (hdefault : s'.defaultCtx = s.defaultCtx)
    (hrunning : s'.running = s.running)
    (hframes : ∀ ctx, InFrames s'.frames ctx → InFrames s.frames ctx)
    (hsaved : ∀ ctx, (s'.ctxs ctx).taskUc = (s.ctxs ctx).taskUc) : Extends s s' goes := by
  refine ⟨hmade.ge, hdestroys, fun ctx _ _ => hsaved ctx, ?_⟩
  intro ctx hctx
  left
  exact refers_of_saved hctx hturn hdefault hrunning hsaved (fun c h => .frames (hframes c h))

theorem extends_modify (s : Scheduler) (ctx : Nat) {f : TaskCtx → TaskCtx}
    (hf : ∀ c, (f c).taskUc = c.taskUc) : Extends s (s.modify ctx f) (fun _ => False) :=
  extends_of_saved rfl rfl rfl rfl rfl (fun _ h => h) (modify_field TaskCtx.taskUc s ctx f hf)

theorem inFrames_cons {frame : Frame} {frames : List Frame} :
    InFrames (frame :: frames) ctx ↔ frame.completing = some ctx ∨ InFrames frames ctx := by
  simp [InFrames]

theorem inFrames_push {frame : Frame} {frames : List Frame} (hframe : frame.completing = none)
    (h : InFrames (frame :: frames) ctx) : InFrames frames ctx := by
  apply (inFrames_cons.mp h).resolve_left
  simp [hframe]

theorem ctxs_makeTask {c : Nat} (taskUc : Point) (hne : c ≠ s.made) :
    (makeTask s taskUc).ctxs c = s.ctxs c := Function.update_of_ne hne _ _

theorem taskUc_makeTask (s : Scheduler) (taskUc : Point) :
    ((makeTask s taskUc).ctxs s.made).taskUc = taskUc := by
  have hself : (makeTask s taskUc).ctxs s.made = .fresh taskUc := Function.update_self _ _ _
  rw [hself]
  rfl

theorem refers_makeTask {taskUc : Point} (hpoint : ∀ owner frames, taskUc ≠ .at owner frames)
    (hctx : Refers (makeTask s taskUc) ctx) : Refers s ctx := by
  cases hctx with
  | turn h => exact .turn h
  | default h => exact .default h
  | running h => exact .running h
  | frames h => exact .frames h
  | @saved curCtx owner frames hat h =>
      by_cases hcur : curCtx = s.made
      · rw [hcur, taskUc_makeTask] at hat
        exact absurd hat (hpoint owner frames)
      · exact .saved curCtx (ctxs_makeTask taskUc hcur ▸ hat) h

theorem extends_makeTask (s : Scheduler) {taskUc : Point}
    (hpoint : ∀ owner frames, taskUc ≠ .at owner frames) :
    Extends s (makeTask s taskUc) (fun _ => False) := by
  refine ⟨Nat.le_succ _, rfl, ?_, fun ctx hctx => .inl (refers_makeTask hpoint hctx)⟩
  intro ctx hmade _
  rw [ctxs_makeTask taskUc (Nat.ne_of_lt hmade)]

theorem extends_makeDefaultTask (s : Scheduler) :
    Extends s (makeDefaultTask s) (fun _ => False) := by
  rw [makeDefaultTask]
  split
  · have hmade := @extends_makeTask s .unset (by simp)
    refine ⟨hmade.made, hmade.destroys, hmade.entry, ?_⟩
    intro ctx hctx
    cases hctx with
    | default h =>
        obtain rfl := Option.some.inj h
        exact .inr (.inr ⟨Nat.le_refl _, Nat.lt_succ_self _⟩)
    | turn h => exact hmade.refers ctx (.turn h)
    | running h => exact hmade.refers ctx (.running h)
    | frames h => exact hmade.refers ctx (.frames h)
    | saved curCtx hat h => exact hmade.refers ctx (.saved curCtx hat h)
  · exact extends_of_saved rfl rfl rfl rfl rfl (fun _ h => h) (fun _ => rfl)

theorem extends_defaultloopTaskInit (onExit : Option Ptr) (s : Scheduler) :
    Extends s (defaultloopTaskInit onExit s) (fun _ => False) := by
  have hset : Extends (makeDefaultTask s) (defaultloopTaskInit onExit s) (fun _ => False) := by
    refine ⟨Nat.le_refl _, rfl, fun _ _ _ => rfl, ?_⟩
    intro ctx hctx
    left
    cases hctx with
    | turn h =>
        rcases Option.or_eq_some_iff.mp h with h | ⟨-, h⟩
        · exact .turn h
        · exact .default h
    | default h => exact .default h
    | running h => exact .running h
    | frames h => exact .frames h
    | saved curCtx hat h => exact .saved curCtx hat h
  exact (extends_makeDefaultTask s).trans hset

theorem saved_saveContext {curCtx c : Nat} {owner : Owner} {frames : List Frame}
    (h : ((saveContext s curCtx).ctxs c).taskUc = .at owner frames) :
    owner = s.running ∧ frames = s.frames ∨ (s.ctxs c).taskUc = .at owner frames := by
  by_cases hcur : c = curCtx
  · subst hcur
    have hself : (saveContext s c).ctxs c =
        { s.ctxs c with taskUc := .at s.running s.frames } := Function.update_self _ _ _
    rw [hself] at h
    exact .inl ⟨(Point.at.inj h).1.symm, (Point.at.inj h).2.symm⟩
  · have hother : (saveContext s curCtx).ctxs c = s.ctxs c := Function.update_of_ne hcur _ _
    exact .inr (hother ▸ h)

/-- `swapcontext` goes on with what was saved, or with the entry of the context it goes to. -/
structure SwapsTo (s s' : Scheduler) (curCtx newCtx : Nat) : Prop where
  made : s'.made = s.made
  destroys : s'.destroys = s.destroys
  entry : ∀ ctx ≠ curCtx, (s'.ctxs ctx).taskUc = (s.ctxs ctx).taskUc
  refers : ∀ ctx, Refers s' ctx → Refers s ctx ∨ newCtx = ctx

theorem swapcontext_swapsTo {curCtx newCtx : Nat}
    (hstep : swapcontext s curCtx newCtx = some s') : SwapsTo s s' curCtx newCtx := by
  have hsaved {ctx c : Nat} {owner : Owner} {frames : List Frame}
      (hat : ((saveContext s curCtx).ctxs c).taskUc = .at owner frames)
      (h : owner = .task ctx ∨ InFrames frames ctx) : Refers s ctx := by
    rcases saved_saveContext hat with ⟨rfl, rfl⟩ | hold
    · exact h.elim .running .frames
    · exact .saved c hold h
  have hswaps {t : Scheduler} (hctxs : t.ctxs = (saveContext s curCtx).ctxs)
      (hmade : t.made = s.made) (hdestroys : t.destroys = s.destroys)
      (hturn : t.curTaskCtx = s.curTaskCtx) (hdefault : t.defaultCtx = s.defaultCtx)
      (hrunning : ∀ ctx, t.running = .task ctx → Refers s ctx ∨ newCtx = ctx)
      (hframes : ∀ ctx, InFrames t.frames ctx → Refers s ctx) : SwapsTo s t curCtx newCtx := by
    refine ⟨hmade, hdestroys, ?_, ?_⟩
    · intro ctx hne
      have hother : (saveContext s curCtx).ctxs ctx = s.ctxs ctx := Function.update_of_ne hne _ _
      rw [hctxs, hother]
    · intro ctx hctx
      cases hctx with
      | turn h => exact .inl (.turn (hturn ▸ h))
      | default h => exact .inl (.default (hdefault ▸ h))
      | running h => exact hrunning ctx h
      | frames h => exact .inl (hframes ctx h)
      | saved c hat h => exact .inl (hsaved (hctxs ▸ hat) h)
  rw [swapcontext] at hstep
  cases hpoint : ((saveContext s curCtx).ctxs newCtx).taskUc with
  | unset => simp [Scheduler.access, hpoint] at hstep
  | entry =>
      simp only [Scheduler.access, hpoint, Option.some.injEq] at hstep
      subst hstep
      refine hswaps rfl rfl rfl rfl rfl ?_ ?_
      · exact fun ctx hctx => .inr (Owner.task.inj hctx)
      · rintro ctx ⟨frame, hmem, -⟩
        exact absurd hmem List.not_mem_nil
  | «at» owner frames =>
      simp only [Scheduler.access, hpoint, Option.some.injEq] at hstep
      subst hstep
      refine hswaps rfl rfl rfl rfl rfl ?_ ?_
      · exact fun ctx hctx => .inl (hsaved hpoint (.inl hctx))
      · exact fun ctx h => hsaved hpoint (.inr h)

theorem switch2task_extends {curCtx newCtx : Nat} (hstep : switch2task s curCtx newCtx = some s') :
    Extends s s' (fun ctx => newCtx = ctx ∧ s.curTaskCtx = some curCtx) := by
  rw [switch2task] at hstep
  split at hstep
  · rename_i hcur
    have hswaps := swapcontext_swapsTo hstep
    refine ⟨hswaps.made.ge, hswaps.destroys, ?_, ?_⟩
    · intro ctx _ hctx
      apply hswaps.entry
      rintro rfl
      exact hctx (.turn hcur)
    · intro ctx hctx
      rcases hswaps.refers ctx hctx with hpushed | hnew
      · cases hpushed with
        | turn h => exact .inr (.inl ⟨Option.some.inj h, hcur⟩)
        | default h => exact .inl (.default h)
        | running h => exact .inl (.running h)
        | frames h =>
            rcases inFrames_cons.mp h with hframe | h
            · exact .inr (.inl ⟨Option.some.inj hframe, hcur⟩)
            · exact .inl (.frames h)
        | saved c hat h => exact .inl (.saved c hat h)
      · exact .inr (.inl ⟨hnew, hcur⟩)
  · obtain rfl := Option.some.inj hstep
    exact extends_of_saved rfl rfl rfl rfl rfl (fun _ h => h) (fun _ => rfl)

theorem makeDefaultTask_of_some {default : Nat} (h : s.defaultCtx = some default) :
    makeDefaultTask s = s := by
  rw [makeDefaultTask, h]

theorem defaultCtx_makeDefaultTask (s : Scheduler) :
    ∃ default, (makeDefaultTask s).defaultCtx = some default := by
  rw [makeDefaultTask]
  split
  · exact ⟨_, rfl⟩
  · exact ⟨_, ‹_›⟩

/-- Before there is a default context nothing has the turn. -/
theorem loopInTurn_iff (hmade : ∀ ctx, Refers s ctx → ctx < s.made) :
    LoopInTurn s ↔ s.defaultCtx ≠ none ∧ s.curTaskCtx = s.defaultCtx := by
  cases hdefault : s.defaultCtx with
  | some default => simp [LoopInTurn, makeDefaultTask_of_some hdefault, hdefault]
  | none =>
      refine iff_of_false ?_ (fun h => h.1 rfl)
      intro hturn
      have hcur : s.curTaskCtx = some s.made := by
        rw [LoopInTurn, makeDefaultTask, hdefault] at hturn
        exact hturn
      exact absurd (hmade s.made (.turn hcur)) (Nat.lt_irrefl _)

/-- What has just been made waits at its entry. -/
theorem makeTask_atEntry (hmade : ∀ ctx, Refers s ctx → ctx < s.made) :
    AtEntry (makeTask s .entry) s.made := by
  refine ⟨Nat.lt_succ_self _, taskUc_makeTask s .entry, ?_⟩
  intro hctx
  exact Nat.lt_irrefl _ (hmade _ (refers_makeTask (by simp) hctx))

theorem loopInTurn_makeTask (hmade : ∀ ctx, Refers s ctx → ctx < s.made) :
    LoopInTurn (makeTask s .entry) ↔ LoopInTurn s := by
  rw [loopInTurn_iff hmade, loopInTurn_iff]
  · rfl
  · exact fun ctx hctx => Nat.lt_succ_of_lt (hmade ctx (refers_makeTask (by simp) hctx))

theorem schedTask_extends (hstep : schedTask s ctx = some s') :
    Extends s s' (fun c => ctx = c ∧ LoopInTurn s) := by
  obtain ⟨default, hdefault, hswitch⟩ := Option.bind_eq_some_iff.mp hstep
  refine (switch2task_extends hswitch).mono ?_
  rintro c ⟨hc, hturn⟩
  refine .inr ⟨hc, ?_⟩
  rw [LoopInTurn, makeDefaultTask_of_some hdefault, hturn, hdefault]

theorem schedDefaultloop_extends (hstep : schedDefaultloop s ctx = some s') :
    Extends s s' (fun _ => False) := by
  obtain ⟨default, hdefault, hswitch⟩ := Option.bind_eq_some_iff.mp hstep
  refine (switch2task_extends hswitch).mono ?_
  rintro c ⟨rfl, -⟩
  exact .inl (.default hdefault)

theorem setCallback_extends (s : Scheduler) (ctx : Nat) (callback callbackCtx : Option Ptr) :
    Extends s (setCallback s ctx callback callbackCtx) (fun _ => False) := by
  refine extends_of_saved rfl rfl rfl rfl rfl ?_ ?_
  · exact fun _ h => inFrames_push rfl h
  · exact modify_field TaskCtx.taskUc s ctx (fun c => { c with
      callbackCtx := some ((callbackCtx.map .given).getD (.self ctx)), callback })
      (fun _ => rfl)

theorem setCompleted_extends (s : Scheduler) (ctx : Nat) :
    Extends s (setCompleted s ctx) (fun _ => False) := by
  refine extends_of_saved rfl rfl rfl rfl rfl ?_ ?_
  · exact fun _ h => inFrames_push rfl h
  · exact modify_field TaskCtx.taskUc s ctx (fun c => { c with bCompleted := true })
      (fun _ => rfl)

theorem setSleeping_extends (s : Scheduler) (ctx : Nat) :
    Extends s (setSleeping s ctx) (fun _ => False) := by
  refine extends_of_saved rfl rfl rfl rfl rfl ?_ ?_
  · exact fun _ h => inFrames_push rfl h
  · exact modify_field TaskCtx.taskUc s ctx (fun c => { c with bIsTimeout := -1 }) (fun _ => rfl)

theorem callbackOnDefaultloop_extends {callback callbackCtx : Option Ptr}
    (hstep : callbackOnDefaultloop s ctx callback callbackCtx = some s') :
    Extends s s' (fun _ => False) :=
  (setCallback_extends s ctx callback callbackCtx).trans (schedDefaultloop_extends hstep)

/-- The contexts that a call is given. -/
def Call.contexts : Call → List Nat
  | .makeTask => []
  | .switch2task curCtx newCtx => [curCtx, newCtx]
  | .startTask ctx | .schedTask ctx | .defaultloopHandlerForTask ctx _ _ | .schedDefaultloop ctx
  | .callbackOnDefaultloop ctx _ _ | .sleepTaskOnDefaultloop ctx _ _ | .exitTask ctx _ _ => [ctx]

theorem Call.goesTo_contexts {call : Call} (h : call.goesTo s ctx) : ctx ∈ call.contexts := by
  cases call with
  | startTask | schedTask | defaultloopHandlerForTask => exact List.mem_singleton.mpr h.1.symm
  | switch2task curCtx newCtx =>
      exact List.mem_cons_of_mem _ (List.mem_singleton.mpr h.1.symm)
  | makeTask | schedDefaultloop | callbackOnDefaultloop | sleepTaskOnDefaultloop | exitTask =>
      exact h.elim

theorem loopInTurn_makeDefaultTask : LoopInTurn (makeDefaultTask s) ↔ LoopInTurn s := by
  obtain ⟨default, hdefault⟩ := defaultCtx_makeDefaultTask s
  rw [LoopInTurn, makeDefaultTask_of_some hdefault, LoopInTurn]

/-- `defaultloop_handler_for_task` up to `sched_task`. -/
def handling (s : Scheduler) (ctx : Nat) (userData : Ptr) (bTimeout : Bool) : Scheduler :=
  (makeDefaultTask s).modify ctx (fun c => { c with bIsTimeout := timeoutValue userData bTimeout })

theorem loopInTurn_handling {userData : Ptr} {bTimeout : Bool} :
    LoopInTurn (handling s ctx userData bTimeout) ↔ LoopInTurn s := by
  obtain ⟨default, hdefault⟩ := defaultCtx_makeDefaultTask s
  have hkept : (handling s ctx userData bTimeout).defaultCtx = some default := hdefault
  rw [LoopInTurn, makeDefaultTask_of_some hkept, LoopInTurn]
  rfl

/-- No call destroys a context, and each goes to the one it says. -/
theorem performCall_extends {call : Call} (hstep : performCall s call = some s') :
    Extends s s' (fun ctx => call.goesTo s ctx) := by
  cases call with
  | makeTask =>
      obtain rfl := Option.some.inj hstep
      exact extends_makeTask s (by simp)
  | startTask ctx =>
      have hsched := (extends_makeDefaultTask s).trans (schedTask_extends hstep)
      simp only [loopInTurn_makeDefaultTask] at hsched
      exact hsched
  | schedTask ctx => exact schedTask_extends hstep
  | defaultloopHandlerForTask ctx userData bTimeout =>
      have hset : Extends (makeDefaultTask s) (handling s ctx userData bTimeout) (fun _ => False) :=
        extends_modify _ ctx (fun _ => rfl)
      have hsched := ((extends_makeDefaultTask s).trans hset).trans (schedTask_extends hstep)
      simp only [loopInTurn_handling] at hsched
      exact hsched
  | switch2task curCtx newCtx => exact switch2task_extends hstep
  | schedDefaultloop ctx => exact schedDefaultloop_extends hstep
  | callbackOnDefaultloop ctx callback callbackCtx => exact callbackOnDefaultloop_extends hstep
  | sleepTaskOnDefaultloop ctx callback callbackCtx =>
      exact (setSleeping_extends s ctx).trans (callbackOnDefaultloop_extends hstep)
  | exitTask ctx callback callbackCtx =>
      exact (setCompleted_extends s ctx).trans (callbackOnDefaultloop_extends hstep)

/-- A switch that the guard lets through begins what has not been entered yet. -/
theorem AtEntry.switch2task {curCtx : Nat} (h : AtEntry s ctx) (hcur : s.curTaskCtx = some curCtx)
    (hstep : switch2task s curCtx ctx = some s') : s'.running = .task ctx := by
  have hne : ctx ≠ curCtx := by
    rintro rfl
    exact h.unreferred (.turn hcur)
  have hother : ((saveContext { s with
      curTaskCtx := some ctx, frames := .afterSwap ctx :: s.frames } curCtx).ctxs ctx) =
        s.ctxs ctx := Function.update_of_ne hne _ _
  rw [Task.switch2task, if_pos hcur, swapcontext] at hstep
  simp only [Scheduler.access, hother, h.entry, Option.some.injEq] at hstep
  rw [← hstep]

theorem AtEntry.schedTask (h : AtEntry s ctx) (hturn : LoopInTurn s)
    (hstep : schedTask s ctx = some s') : s'.running = .task ctx := by
  obtain ⟨default, hdefault, hswitch⟩ := Option.bind_eq_some_iff.mp hstep
  rw [LoopInTurn, makeDefaultTask_of_some hdefault, hdefault] at hturn
  exact h.switch2task hturn hswitch

/-- A call that goes to a context that has not been entered enters it. -/
theorem AtEntry.performCall {call : Call} (h : AtEntry s ctx) (hgoes : call.goesTo s ctx)
    (hstep : performCall s call = some s') : s'.running = .task ctx := by
  cases call with
  | startTask newCtx =>
      obtain ⟨rfl, hturn⟩ := hgoes
      exact (h.extends (extends_makeDefaultTask s) id).schedTask
        (loopInTurn_makeDefaultTask.mpr hturn) hstep
  | schedTask newCtx =>
      obtain ⟨rfl, hturn⟩ := hgoes
      exact h.schedTask hturn hstep
  | defaultloopHandlerForTask newCtx userData bTimeout =>
      obtain ⟨rfl, hturn⟩ := hgoes
      have hset : Extends (makeDefaultTask s) (handling s newCtx userData bTimeout)
          (fun _ => False) := extends_modify _ newCtx (fun _ => rfl)
      exact (h.extends ((extends_makeDefaultTask s).trans hset) id).schedTask
        (loopInTurn_handling.mpr hturn) hstep
  | switch2task curCtx newCtx =>
      obtain ⟨rfl, hcur⟩ := hgoes
      exact h.switch2task hcur hstep
  | makeTask | schedDefaultloop | callbackOnDefaultloop | sleepTaskOnDefaultloop | exitTask =>
      exact hgoes.elim

/-- The context that the step destroys. -/
def completing (s : Scheduler) : Action → Option Nat
  | .call _ => none
  | .library =>
      match s.frames with
      | .afterSwap ctx :: _ =>
          if s.curTaskCtx = s.defaultCtx ∧ (s.ctxs ctx).callback = none ∧
            (s.ctxs ctx).bCompleted ∧ s.onExit = none then some ctx else none
      | _ => none
  | .userReturn =>
      match s.frames with
      | .ifCompletedCallback ctx :: _ => if (s.ctxs ctx).bCompleted then some ctx else none
      | .ifCompletedExit ctx :: _ => some ctx
      | _ => none

/-- What a step does that is no call: it enters no context, and destroys at most one, which the
scheduler refers to. -/
structure Destroys (s s' : Scheduler) (destroyed : Option Nat) : Prop where
  made : s'.made = s.made
  destroys : s'.destroys = s.destroys ++ destroyed.toList
  known : ∀ ctx, destroyed = some ctx → Refers s ctx
  entry : ∀ ctx, (s'.ctxs ctx).taskUc = (s.ctxs ctx).taskUc
  refers : ∀ ctx, Refers s' ctx → Refers s ctx

theorem destroys_none {rest : List Frame} (hmade : s'.made = s.made)
    (hdestroys : s'.destroys = s.destroys) (hturn : s'.curTaskCtx = s.curTaskCtx)
    (hdefault : s'.defaultCtx = s.defaultCtx) (hrunning : s'.running = s.running)
    (hsaved : ∀ ctx, (s'.ctxs ctx).taskUc = (s.ctxs ctx).taskUc) (hframes : s'.frames = rest)
    (hrest : ∀ ctx, InFrames rest ctx → Refers s ctx) : Destroys s s' none := by
  refine ⟨hmade, by simp [hdestroys], fun _ h => (nomatch h), hsaved, ?_⟩
  intro ctx hctx
  exact refers_of_saved hctx hturn hdefault hrunning hsaved (fun c h => hrest c (hframes ▸ h))

theorem taskUc_destroyTask (s : Scheduler) (ctx c : Nat) :
    ((destroyTask s ctx).ctxs c).taskUc = (s.ctxs c).taskUc := by
  by_cases heq : c = ctx
  · subst heq
    simp [destroyTask]
  · simp [destroyTask, Function.update_of_ne heq]

theorem destroyTask_destroys {rest : List Frame} (hctx : Refers s ctx)
    (hrest : ∀ c, InFrames rest c → Refers s c) :
    Destroys s ((destroyTask s ctx).returnTo rest) (some ctx) := by
  refine ⟨rfl, rfl, ?_, taskUc_destroyTask s ctx, ?_⟩
  · intro c hc
    obtain rfl := Option.some.inj hc
    exact hctx
  · intro c hc
    exact refers_of_saved hc rfl rfl rfl (taskUc_destroyTask s ctx) hrest

/-- `destroy_task` as user code calls it. -/
theorem refers_destroyTask {c : Nat} (hc : Refers (destroyTask s ctx) c) : Refers s c :=
  refers_of_saved hc rfl rfl rfl (taskUc_destroyTask s ctx) (fun _ h => .frames h)

theorem refers_access {c : Nat} : Refers (s.access ctx) c ↔ Refers s c := by
  constructor
  · exact fun hc => refers_of_saved hc rfl rfl rfl (fun _ => rfl) (fun _ h => .frames h)
  · exact fun hc => refers_of_saved hc rfl rfl rfl (fun _ => rfl) (fun _ h => .frames h)

theorem refers_modify {f : TaskCtx → TaskCtx} {c : Nat} (hf : ∀ c, (f c).taskUc = c.taskUc) :
    Refers (s.modify ctx f) c ↔ Refers s c := by
  have hsaved := modify_field TaskCtx.taskUc s ctx f hf
  constructor
  · exact fun hc => refers_of_saved hc rfl rfl rfl hsaved (fun _ h => .frames h)
  · exact fun hc =>
      refers_of_saved hc rfl rfl rfl (fun c => (hsaved c).symm) (fun _ h => .frames h)

theorem Destroys.access {destroyed : Option Nat} (h : Destroys (s.access ctx) s' destroyed) :
    Destroys s s' destroyed :=
  ⟨h.made, h.destroys, fun c hc => refers_access.mp (h.known c hc), h.entry,
    fun c hc => refers_access.mp (h.refers c hc)⟩

/-- A context with a frame of its own is one that was referred to before. -/
theorem refers_push {frame : Frame} {rest : List Frame} (hframe : frame.completing = some ctx)
    (hctx : Refers s ctx) (hrest : ∀ c, InFrames rest c → Refers s c) {c : Nat}
    (h : InFrames (frame :: rest) c) : Refers s c := by
  rcases inFrames_cons.mp h with h | h
  · rw [hframe] at h
    obtain rfl := Option.some.inj h
    exact hctx
  · exact hrest c h

theorem completedCheck_destroys {rest : List Frame} (hasExitCallback : Bool) (hctx : Refers s ctx)
    (hrest : ∀ c, InFrames rest c → Refers s c) :
    Destroys s (completedCheck s ctx hasExitCallback rest)
      (if (s.ctxs ctx).bCompleted ∧ (hasExitCallback = true ∨ s.onExit = none)
        then some ctx else none) := by
  have hcompleted : ((s.access ctx).ctxs ctx).bCompleted = (s.ctxs ctx).bCompleted := rfl
  have hexit : ((!hasExitCallback && (s.access ctx).onExit.isSome) = true) ↔
      ¬ (hasExitCallback = true ∨ s.onExit = none) := by
    simp [Scheduler.access, Option.isSome_iff_ne_none]
  rw [completedCheck, hcompleted]
  apply Destroys.access
  by_cases hdone : (s.ctxs ctx).bCompleted = true
  · by_cases hcallback : hasExitCallback = true ∨ s.onExit = none
    · simp only [hdone, if_true, if_neg (mt hexit.mp (not_not_intro hcallback)), hcallback,
        true_and]
      exact destroyTask_destroys (refers_access.mpr hctx)
        (fun c hc => refers_access.mpr (hrest c hc))
    · simp only [hdone, if_true, if_pos (hexit.mpr hcallback), hcallback, and_false, if_false]
      exact destroys_none rfl rfl rfl rfl rfl (fun _ => rfl) rfl (fun c hc =>
        refers_push rfl (refers_access.mpr hctx) (fun c hc => refers_access.mpr (hrest c hc)) hc)
  · rw [if_neg hdone, if_neg (fun h => hdone h.1)]
    exact destroys_none rfl rfl rfl rfl rfl (fun _ => rfl) rfl
      (fun c hc => refers_access.mpr (hrest c hc))

theorem ifCompletedTask_destroys {rest : List Frame} (hctx : Refers s ctx)
    (hrest : ∀ c, InFrames rest c → Refers s c) :
    Destroys s (ifCompletedTask s ctx rest)
      (if (s.ctxs ctx).callback = none ∧ (s.ctxs ctx).bCompleted ∧ s.onExit = none
        then some ctx else none) := by
  have hcallback : ((s.access ctx).ctxs ctx).callback = (s.ctxs ctx).callback := rfl
  rw [ifCompletedTask, hcallback]
  refine @Destroys.access s _ ctx _ ?_
  cases hcase : (s.ctxs ctx).callback with
  | some callback =>
      rw [if_neg (fun h => Option.some_ne_none callback h.1)]
      exact destroys_none rfl rfl rfl rfl rfl (fun _ => rfl) rfl (fun c hc =>
        refers_push rfl (refers_access.mpr hctx) (fun c hc => refers_access.mpr (hrest c hc)) hc)
  | none =>
      have hcheck := @completedCheck_destroys (s.access ctx) ctx rest false
        (refers_access.mpr hctx) (fun c hc => refers_access.mpr (hrest c hc))
      simp only [Bool.false_eq_true, false_or] at hcheck
      simp only [true_and]
      exact hcheck

theorem libraryStep_destroys (hstep : libraryStep s = some s') :
    Destroys s s' (completing s .library) := by
  have hframes {frame : Frame} {rest : List Frame} (hframes : s.frames = frame :: rest) (c : Nat)
      (hc : InFrames rest c) : Refers s c :=
    .frames (hframes ▸ inFrames_cons.mpr (.inr hc))
  rcases libraryStep_cases hstep with ⟨newCtx, rest, htop, hcur, rfl⟩ |
    ⟨frame, rest, htop, hother, rfl⟩ | ⟨ctx, rest, htop, rfl⟩
  · have hnew : Refers s newCtx := .frames (htop ▸ inFrames_cons.mpr (.inl rfl))
    have hcompleting := ifCompletedTask_destroys hnew (hframes htop)
    simpa only [completing, htop, hcur, true_and] using hcompleting
  · have hnone : completing s .library = none := by
      rcases hother with rfl | hcur
      · simp [completing, htop]
      · cases frame <;> simp [completing, htop, hcur]
    rw [hnone]
    exact destroys_none rfl rfl rfl rfl rfl (fun _ => rfl) rfl (hframes htop)
  · have hnone : completing s .library = none := by
      rcases htop with htop | htop
      · simp [completing, htop]
      · simp [completing, htop]
    rw [hnone]
    refine destroys_none rfl rfl rfl rfl rfl (fun _ => rfl) rfl ?_
    rcases htop with htop | htop
    · exact hframes htop
    · exact hframes htop

theorem userReturn_destroys (hstep : userReturn s = some s') :
    Destroys s s' (completing s .userReturn) := by
  rcases userReturn_cases hstep with ⟨ctx, rest, htop, rfl⟩ | ⟨ctx, rest, htop, rfl⟩
  · have hcleared (c : Nat) : Refers (callbackCleared s ctx) c ↔ Refers s c :=
      refers_modify (fun _ => rfl)
    have hcheck := @completedCheck_destroys (callbackCleared s ctx) ctx rest true
      ((hcleared ctx).mpr (.frames (htop ▸ inFrames_cons.mpr (.inl rfl))))
      (fun c hc => (hcleared c).mpr (.frames (htop ▸ inFrames_cons.mpr (.inr hc))))
    have hcompleted : ((callbackCleared s ctx).ctxs ctx).bCompleted = (s.ctxs ctx).bCompleted :=
      modify_field TaskCtx.bCompleted s ctx
        (fun c => { c with callback := none, callbackCtx := none }) (fun _ => rfl) ctx
    have hcompleting : completing s .userReturn =
        if (s.ctxs ctx).bCompleted = true then some ctx else none := by
      simp only [completing, htop]
    simp only [true_or, and_true, hcompleted] at hcheck
    rw [hcompleting]
    refine ⟨hcheck.made, hcheck.destroys, fun c hc => (hcleared c).mp (hcheck.known c hc), ?_,
      fun c hc => (hcleared c).mp (hcheck.refers c hc)⟩
    intro c
    rw [hcheck.entry c]
    exact modify_field TaskCtx.taskUc s ctx
      (fun c => { c with callback := none, callbackCtx := none }) (fun _ => rfl) c
  · have hnone : completing s .userReturn = some ctx := by simp [completing, htop]
    rw [hnone]
    exact destroyTask_destroys (.frames (htop ▸ inFrames_cons.mpr (.inl rfl)))
      (fun c hc => .frames (htop ▸ inFrames_cons.mpr (.inr hc)))

end EventLoop.Task
