import EventLoop.Task.Context

/-!
Whether the scheduler has to be initialised. Loop code makes tasks and starts or resumes
them, each time by a call that makes the default context if there is none. Two runs of the
same loop code with the same tasks are compared that differ in one call of
`defaultloop_task_init` at the start.
-/

namespace EventLoop.Task

/-- A call whose contexts are given by their places in a list. -/
def Call.onContexts (contexts : List Nat) : Call → Option Call
  | .makeTask => some .makeTask
  | .startTask i => contexts[i]?.map .startTask
  | .schedTask i => contexts[i]?.map .schedTask
  | .defaultloopHandlerForTask i userData bTimeout =>
      contexts[i]?.map (.defaultloopHandlerForTask · userData bTimeout)
  | .switch2task i j =>
      contexts[i]?.bind (fun curCtx => contexts[j]?.map (.switch2task curCtx))
  | .schedDefaultloop i => contexts[i]?.map .schedDefaultloop
  | .callbackOnDefaultloop i callback callbackCtx =>
      contexts[i]?.map (.callbackOnDefaultloop · callback callbackCtx)
  | .sleepTaskOnDefaultloop i callback callbackCtx =>
      contexts[i]?.map (.sleepTaskOnDefaultloop · callback callbackCtx)
  | .exitTask i callback callbackCtx => contexts[i]?.map (.exitTask · callback callbackCtx)

/-- A stack, by the place of its context. -/
def Owner.onContexts (contexts : List Nat) : Owner → Owner
  | .loop => .loop
  | .task ctx => .task (contexts.idxOf ctx)

/-- What happens in a run, in terms that do not depend on where a context was allocated. -/
inductive Event where
  | loopCode (call : Call)
  /-- A task, or a callback on the stack of the loop, makes a call or returns. -/
  | userCode (on : Owner) (call : Option Call)
  | library (on : Owner)
deriving DecidableEq, Repr

def Event.onTask : Event → Bool
  | .userCode (.task _) _ | .library (.task _) => true
  | _ => false

/-- What tasks and callbacks do next, after what has happened. -/
abbrev Behaviour := List Event → Option Call

/-- A process whose loop code is still to make the calls of `program`, with the contexts
that it has been given; `contexts` are those of all user code. There is no scheduler behind
a call that is not possible. -/
structure Process where
  scheduler : Option Scheduler
  program : List Call
  held : List Nat
  contexts : List Nat
  history : List Event

def Process.start (s : Scheduler) (held : List Nat) (program : List Call) : Process :=
  ⟨some s, program, held, held, []⟩

/-- The context that the call returns. -/
def returned (s : Scheduler) (call : Call) : List Nat :=
  if call = .makeTask then [s.made] else []

/-- Loop code makes its next call, the scheduler being `s`. -/
def Process.loopCall (p : Process) (s : Scheduler) (call : Call) (program : List Call) : Process where
  scheduler := (call.onContexts p.held).bind (fun call => step s (.call call))
  program
  held := p.held ++ returned s call
  contexts := p.contexts ++ returned s call
  history := p.history ++ [.loopCode call]

/-- Loop code is what executes on the stack of the loop above `loopFrames`. -/
def advance (behaviour : Behaviour) (loopFrames : List Frame) (p : Process) : Option Process :=
  p.scheduler.bind (fun s =>
    let on := s.running.onContexts p.contexts
    if s.control = .library then
      some { p with scheduler := step s .library, history := p.history ++ [.library on] }
    else if s.running = .loop ∧ s.frames = loopFrames then
      match p.program with
      | [] => none
      | call :: program => some (p.loopCall s call program)
    else match behaviour p.history with
      | none => some { p with
          scheduler := step s .userReturn
          history := p.history ++ [.userCode on none] }
      | some call => some { p with
          scheduler := (call.onContexts p.contexts).bind (fun call => step s (.call call))
          contexts := p.contexts ++ returned s call
          history := p.history ++ [.userCode on (some call)] })

/-- The process after so many steps, or after its last one. -/
def after (behaviour : Behaviour) (loopFrames : List Frame) (p : Process) : Nat → Process
  | 0 => p
  | n + 1 =>
      let p := after behaviour loopFrames p n
      (advance behaviour loopFrames p).getD p

def Process.taskSteps (p : Process) : List Event := p.history.filter Event.onTask

/-- The two processes go through the same task steps, whether these end or not. -/
def SameTaskSteps (behaviour : Behaviour) (loopFrames : List Frame) (p q : Process) : Prop :=
  ∀ steps, (∃ n, (after behaviour loopFrames p n).taskSteps = steps) ↔
    ∃ n, (after behaviour loopFrames q n).taskSteps = steps

/-- User code executes on the stack of the loop. -/
structure InLoopCode (s : Scheduler) : Prop where
  running : s.running = .loop
  control : s.control = .user
  frames : callerControl s.frames = .user

/-- A fresh process, or one behind `defaultloop_task_final`. -/
inductive Uninitialised : Scheduler → Prop where
  | fresh : Uninitialised .init
  | final {s : Scheduler} (h : InLoopCode s) : Uninitialised (defaultloopTaskFinal s)

/-- A task is entered there, or goes on. -/
def Point.OnTask : Point → Prop
  | .entry | .at (.task _) _ => True
  | _ => False

/-- Loop code has been given these contexts, and they are those of tasks. -/
def HoldsTasks (s : Scheduler) (held : List Nat) : Prop :=
  ∀ ctx ∈ held, ctx < s.made ∧ (s.ctxs ctx).taskUc.OnTask

/-- Calls of `make_task`, and of `start_task` and `defaultloop_handler_for_task` with a
context there is when `n` are held at the start. -/
def LoopProgram : Nat → List Call → Prop
  | _, [] => True
  | n, .makeTask :: rest => LoopProgram (n + 1) rest
  | n, .startTask i :: rest | n, .defaultloopHandlerForTask i _ _ :: rest =>
      i < n ∧ LoopProgram n rest
  | _, _ => False

variable {behaviour : Behaviour} {s s' : Scheduler} {frames : List Frame} {p p' : Process}
  {ctx default : Nat}

theorem after_succ' (behaviour : Behaviour) (frames : List Frame) (p : Process) (n : Nat) :
    after behaviour frames p (n + 1) =
      after behaviour frames ((advance behaviour frames p).getD p) n := by
  induction n with
  | zero => rfl
  | succ n ih =>
      change (advance behaviour frames (after behaviour frames p (n + 1))).getD
        (after behaviour frames p (n + 1)) = _
      rw [ih]
      rfl

theorem advance_loopCode (hp : p.scheduler = some s) (hs : InLoopCode s)
    (hframes : s.frames = frames) :
    advance behaviour frames p = match p.program with
      | [] => none
      | call :: program => some (p.loopCall s call program) := by
  rw [advance, hp, Option.bind_some, if_neg (by rw [hs.control]; decide),
    if_pos ⟨hs.running, hframes⟩]

theorem taskSteps_loopCall (p : Process) (s : Scheduler) (call : Call) (program : List Call) :
    (p.loopCall s call program).taskSteps = p.taskSteps := by
  simp [Process.taskSteps, Process.loopCall, Event.onTask]

/-- Where a task has the processor, the next step is one of a task. -/
theorem advance_onTask (hp : p.scheduler = some s) (hs : s.running = .task ctx) :
    ∃ p', advance behaviour frames p = some p' ∧ p'.taskSteps ≠ [] := by
  rw [advance, hp, Option.bind_some]
  by_cases hlibrary : s.control = .library
  · rw [if_pos hlibrary]
    refine ⟨_, rfl, ?_⟩
    simp [Process.taskSteps, Event.onTask, Owner.onContexts, hs]
  · rw [if_neg hlibrary, if_neg (by simp [hs])]
    split
    all_goals
      refine ⟨_, rfl, ?_⟩
      simp [Process.taskSteps, Event.onTask, Owner.onContexts, hs]

/-- The next call of loop code, and what follows it. -/
theorem loopProgram_cons {n : Nat} {call : Call} {rest : List Call}
    (h : LoopProgram n (call :: rest)) :
    (call = .makeTask ∧ LoopProgram (n + 1) rest) ∨
      ∃ i, i < n ∧ LoopProgram n rest ∧ (call = .startTask i ∨
        ∃ userData bTimeout, call = .defaultloopHandlerForTask i userData bTimeout) := by
  cases call with
  | makeTask => exact .inl ⟨rfl, h⟩
  | startTask i => exact .inr ⟨i, h.1, h.2, .inl rfl⟩
  | defaultloopHandlerForTask i userData bTimeout =>
      exact .inr ⟨i, h.1, h.2, .inr ⟨userData, bTimeout, rfl⟩⟩
  | _ => exact h.elim

/-- Loop code goes on as before. -/
structure Unmoved (s s' : Scheduler) : Prop where
  running : s'.running = s.running
  control : s'.control = s.control
  frames : s'.frames = s.frames
  curTaskCtx : s'.curTaskCtx = s.curTaskCtx

theorem Unmoved.inLoopCode (h : Unmoved s s') (hs : InLoopCode s) : InLoopCode s' :=
  ⟨h.running.trans hs.running, h.control.trans hs.control, h.frames ▸ hs.frames⟩

theorem makeTask_unmoved (s : Scheduler) (taskUc : Point) : Unmoved s (makeTask s taskUc) :=
  ⟨rfl, rfl, rfl, rfl⟩

theorem makeDefaultTask_unmoved (s : Scheduler) : Unmoved s (makeDefaultTask s) := by
  rw [makeDefaultTask]
  split <;> exact ⟨rfl, rfl, rfl, rfl⟩

/-- The guard compares the default context with no context. -/
theorem schedTask_unmoved (hs : InLoopCode s) (hcur : s.curTaskCtx = none)
    (hstep : schedTask s ctx = some s') : Unmoved s s' := by
  obtain ⟨default, -, hswitch⟩ := Option.bind_eq_some_iff.mp hstep
  rw [switch2task, if_neg (by simp [hcur])] at hswitch
  obtain rfl := Option.some.inj hswitch
  exact ⟨rfl, hs.frames.trans hs.control.symm, rfl, rfl⟩

theorem Unmoved.trans {s'' : Scheduler} (h : Unmoved s s') (h' : Unmoved s' s'') :
    Unmoved s s'' :=
  ⟨h'.running.trans h.running, h'.control.trans h.control, h'.frames.trans h.frames,
    h'.curTaskCtx.trans h.curTaskCtx⟩

theorem startTask_unmoved (hs : InLoopCode s) (hcur : s.curTaskCtx = none)
    (hstep : startTask s ctx = some s') : Unmoved s s' := by
  have hmade := makeDefaultTask_unmoved s
  exact hmade.trans (schedTask_unmoved (hmade.inLoopCode hs) (hmade.curTaskCtx.trans hcur) hstep)

theorem defaultloopHandlerForTask_unmoved {userData : Ptr} {bTimeout : Bool} (hs : InLoopCode s)
    (hcur : s.curTaskCtx = none)
    (hstep : defaultloopHandlerForTask s ctx userData bTimeout = some s') : Unmoved s s' := by
  have hmade := makeDefaultTask_unmoved s
  have hset (f : TaskCtx → TaskCtx) : Unmoved s ((makeDefaultTask s).modify ctx f) :=
    hmade.trans ⟨rfl, rfl, rfl, rfl⟩
  exact (hset _).trans (schedTask_unmoved ((hset _).inLoopCode hs)
    ((hset _).curTaskCtx.trans hcur) hstep)

/-- No task has made a step, and none is going to: there is no current context, or tasks
are only made. -/
structure Quiet (frames : List Frame) (p : Process) : Prop where
  steps : p.taskSteps = []
  program : LoopProgram p.held.length p.program
  inLoopCode : ∀ s, p.scheduler = some s → InLoopCode s ∧ s.frames = frames
  idle : ∀ s, p.scheduler = some s →
    s.curTaskCtx = none ∨ ∀ call ∈ p.program, call = .makeTask

theorem loopCall_program {call : Call} {rest : List Call}
    (h : LoopProgram p.held.length (call :: rest)) :
    LoopProgram (p.loopCall s call rest).held.length rest := by
  rw [Process.loopCall, List.length_append]
  rcases loopProgram_cons h with ⟨rfl, hrest⟩ | ⟨i, -, hrest, rfl | ⟨userData, bTimeout, rfl⟩⟩
  · exact hrest
  · exact hrest
  · exact hrest

theorem loopCall_unmoved {call : Call} {rest : List Call} (hs : InLoopCode s)
    (h : LoopProgram p.held.length (call :: rest))
    (hidle : s.curTaskCtx = none ∨ call = .makeTask)
    (hs' : (p.loopCall s call rest).scheduler = some s') : Unmoved s s' := by
  obtain ⟨resolved, hresolved, hstep⟩ := Option.bind_eq_some_iff.mp hs'
  rw [step, if_pos hs.control] at hstep
  rcases loopProgram_cons h with ⟨rfl, -⟩ | ⟨i, -, -, hcall⟩
  · obtain rfl := Option.some.inj hresolved
    obtain rfl := Option.some.inj hstep
    exact makeTask_unmoved s .entry
  · have hcur : s.curTaskCtx = none := by
      rcases hcall with rfl | ⟨userData, bTimeout, rfl⟩
      · exact hidle.resolve_right (by simp)
      · exact hidle.resolve_right (by simp)
    rcases hcall with rfl | ⟨userData, bTimeout, rfl⟩
    · obtain ⟨ctx, -, rfl⟩ := Option.map_eq_some_iff.mp hresolved
      exact startTask_unmoved hs hcur hstep
    · obtain ⟨ctx, -, rfl⟩ := Option.map_eq_some_iff.mp hresolved
      exact defaultloopHandlerForTask_unmoved hs hcur hstep

theorem Quiet.advance (h : Quiet frames p) (hstep : advance behaviour frames p = some p') :
    Quiet frames p' := by
  obtain ⟨s, hscheduler, -⟩ := Option.bind_eq_some_iff.mp hstep
  obtain ⟨hs, hframes⟩ := h.inLoopCode s hscheduler
  rw [advance_loopCode hscheduler hs hframes] at hstep
  cases hprogram : p.program with
  | nil => simp [hprogram] at hstep
  | cons call rest =>
      simp only [hprogram, Option.some.injEq] at hstep
      subst hstep
      have hcalls : LoopProgram p.held.length (call :: rest) := hprogram ▸ h.program
      have hidle : s.curTaskCtx = none ∨ ∀ c ∈ call :: rest, c = .makeTask :=
        hprogram ▸ h.idle s hscheduler
      have hunmoved (s' : Scheduler) (hs' : (p.loopCall s call rest).scheduler = some s') :
          Unmoved s s' :=
        loopCall_unmoved hs hcalls (hidle.imp_right (fun hall => hall call List.mem_cons_self)) hs'
      refine ⟨?_, loopCall_program hcalls, ?_, ?_⟩
      · rw [taskSteps_loopCall]
        exact h.steps
      · intro s' hs'
        exact ⟨(hunmoved s' hs').inLoopCode hs, (hunmoved s' hs').frames.trans hframes⟩
      · intro s' hs'
        exact hidle.imp (fun hcur => (hunmoved s' hs').curTaskCtx.trans hcur)
          (fun hall c hc => hall c (List.mem_cons_of_mem _ hc))

theorem Quiet.after (h : Quiet frames p) (n : Nat) : Quiet frames (after behaviour frames p n) := by
  induction n with
  | zero => exact h
  | succ n ih =>
      rw [Task.after]
      cases hstep : Task.advance behaviour frames (Task.after behaviour frames p n) with
      | none => exact ih
      | some p' => exact ih.advance hstep

theorem swapcontext_onTask (hne : ctx ≠ default) (hon : (s.ctxs ctx).taskUc.OnTask) :
    ∃ s' task, swapcontext s default ctx = some s' ∧ s'.running = .task task := by
  have hsaved : (((saveContext s default).access ctx).ctxs ctx).taskUc = (s.ctxs ctx).taskUc := by
    simp [saveContext, Scheduler.modify, Scheduler.access, Function.update_of_ne hne]
  rw [swapcontext]
  cases hpoint : (s.ctxs ctx).taskUc with
  | unset => simp [hpoint, Point.OnTask] at hon
  | entry =>
      rw [hsaved, hpoint]
      exact ⟨_, ctx, rfl, rfl⟩
  | «at» owner stack =>
      rw [hsaved, hpoint]
      cases owner with
      | loop => simp [hpoint, Point.OnTask] at hon
      | task task => exact ⟨_, task, rfl, rfl⟩

/-- Loop code goes on behind `defaultloop_task_init`. -/
structure Ready (frames : List Frame) (default : Nat) (held : List Nat) (s : Scheduler) : Prop where
  inLoopCode : InLoopCode s
  frames : s.frames = frames
  defaultCtx : s.defaultCtx = some default
  curTaskCtx : s.curTaskCtx = some default
  made : default < s.made
  holdsTasks : HoldsTasks s held
  default_not_mem : default ∉ held

variable {held : List Nat}

theorem Ready.schedTask (h : Ready frames default held s) (hctx : ctx ∈ held) :
    ∃ s' task, schedTask s ctx = some s' ∧ s'.running = .task task := by
  have hne : ctx ≠ default := ne_of_mem_of_not_mem hctx h.default_not_mem
  rw [Task.schedTask, h.defaultCtx, Option.bind_some, switch2task, if_pos h.curTaskCtx]
  exact swapcontext_onTask hne (h.holdsTasks ctx hctx).2

theorem Ready.makeDefaultTask (h : Ready frames default held s) : makeDefaultTask s = s := by
  rw [Task.makeDefaultTask, h.defaultCtx]

theorem Ready.modify (h : Ready frames default held s) (f : TaskCtx → TaskCtx)
    (hf : ∀ c, (f c).taskUc = c.taskUc) : Ready frames default held (s.modify ctx f) := by
  refine ⟨⟨h.inLoopCode.running, h.inLoopCode.control, h.inLoopCode.frames⟩, h.frames,
    h.defaultCtx, h.curTaskCtx, h.made, ?_, h.default_not_mem⟩
  intro c hc
  refine ⟨(h.holdsTasks c hc).1, ?_⟩
  have hpoint : ((s.modify ctx f).ctxs c).taskUc = (s.ctxs c).taskUc := by
    by_cases hsame : c = ctx
    · subst hsame
      simp [Scheduler.modify, hf]
    · simp [Scheduler.modify, Scheduler.access, Function.update_of_ne hsame]
  rw [hpoint]
  exact (h.holdsTasks c hc).2

/-- A call of `start_task` or `defaultloop_handler_for_task` gives the processor to a task. -/
theorem Ready.loopCall_onTask (h : Ready frames default p.held s) {call : Call} {rest : List Call}
    (hprogram : LoopProgram p.held.length (call :: rest)) (hcall : call ≠ .makeTask) :
    ∃ s' task, (p.loopCall s call rest).scheduler = some s' ∧ s'.running = .task task := by
  rcases loopProgram_cons hprogram with ⟨hmake, -⟩ | ⟨i, hi, -, hcases⟩
  · exact absurd hmake hcall
  · have hctx : p.held[i] ∈ p.held := List.getElem_mem hi
    rcases hcases with rfl | ⟨userData, bTimeout, rfl⟩
    · obtain ⟨s', task, hstep, hrunning⟩ := h.schedTask hctx
      refine ⟨s', task, ?_, hrunning⟩
      simp [Process.loopCall, Call.onContexts, List.getElem?_eq_getElem hi, step,
        h.inLoopCode.control, performCall, startTask, h.makeDefaultTask, hstep]
    · have hset := @Ready.modify s frames p.held[i] default p.held h
        (fun c => { c with bIsTimeout := timeoutValue userData bTimeout }) (fun _ => rfl)
      obtain ⟨s', task, hstep, hrunning⟩ := hset.schedTask hctx
      refine ⟨s', task, ?_, hrunning⟩
      simp [Process.loopCall, Call.onContexts, List.getElem?_eq_getElem hi, step,
        h.inLoopCode.control, performCall, defaultloopHandlerForTask, h.makeDefaultTask, hstep]

theorem HoldsTasks.makeTask (h : HoldsTasks s held) (taskUc : Point) :
    HoldsTasks (makeTask s taskUc) held := by
  intro c hc
  refine ⟨Nat.lt_succ_of_lt (h c hc).1, ?_⟩
  change (Function.update s.ctxs s.made (.fresh taskUc) c).taskUc.OnTask
  rw [Function.update_of_ne (Nat.ne_of_lt (h c hc).1)]
  exact (h c hc).2

theorem Ready.makeTask (h : Ready frames default held s) :
    Ready frames default (held ++ [s.made]) (makeTask s .entry) := by
  refine ⟨(makeTask_unmoved s .entry).inLoopCode h.inLoopCode, h.frames, h.defaultCtx,
    h.curTaskCtx, Nat.lt_succ_of_lt h.made, ?_, ?_⟩
  · intro c hc
    rcases List.mem_append.mp hc with hc | hc
    · exact h.holdsTasks.makeTask .entry c hc
    · obtain rfl := List.mem_singleton.mp hc
      refine ⟨Nat.lt_succ_self _, ?_⟩
      change (Function.update s.ctxs s.made (.fresh .entry) s.made).taskUc.OnTask
      rw [Function.update_self]
      trivial
  · simp [h.default_not_mem, Nat.ne_of_lt h.made]

/-- Behind `defaultloop_task_init` a task makes a step, unless loop code only makes tasks. -/
theorem Ready.task_step (hp : p.scheduler = some s) (h : Ready frames default p.held s)
    (hprogram : LoopProgram p.held.length p.program)
    (hcall : ∃ call ∈ p.program, call ≠ .makeTask) :
    ∃ n, (after behaviour frames p n).taskSteps ≠ [] := by
  induction hrest : p.program generalizing p s with
  | nil => simp [hrest] at hcall
  | cons call rest ih =>
      have hadvance : advance behaviour frames p = some (p.loopCall s call rest) := by
        rw [advance_loopCode hp h.inLoopCode h.frames, hrest]
      rw [hrest] at hprogram hcall
      by_cases hmake : call = .makeTask
      · subst hmake
        have hlater : ∃ call ∈ rest, call ≠ .makeTask := by simpa using hcall
        have hmade : (p.loopCall s .makeTask rest).scheduler = some (Task.makeTask s .entry) := by
          simp [Process.loopCall, Call.onContexts, step, h.inLoopCode.control, performCall]
        obtain ⟨n, hn⟩ := ih hmade h.makeTask (loopCall_program hprogram) hlater rfl
        refine ⟨n + 1, ?_⟩
        rw [after_succ', hadvance]
        exact hn
      · obtain ⟨s', task, hs', hrunning⟩ := h.loopCall_onTask hprogram hmake
        obtain ⟨p', hp', hsteps⟩ := advance_onTask hs' hrunning
        refine ⟨2, ?_⟩
        rw [after_succ', hadvance, Option.getD_some, after_succ', hp']
        exact hsteps

theorem Uninitialised.inLoopCode (h : Uninitialised s) : InLoopCode s := by
  cases h with
  | fresh => exact ⟨rfl, rfl, rfl⟩
  | @final s hs =>
      rw [defaultloopTaskFinal]
      cases s.defaultCtx with
      | none => exact ⟨hs.running, hs.control, hs.frames⟩
      | some default => exact ⟨hs.running, hs.control, hs.frames⟩

theorem Uninitialised.defaultCtx (h : Uninitialised s) : s.defaultCtx = none := by
  cases h with
  | fresh => rfl
  | @final s hs =>
      rw [defaultloopTaskFinal]
      cases hdefault : s.defaultCtx with
      | none => exact hdefault
      | some default => rfl

theorem Uninitialised.curTaskCtx (h : Uninitialised s) : s.curTaskCtx = none := by
  cases h with
  | fresh => rfl
  | final hs => rfl

theorem Uninitialised.ready (h : Uninitialised s) (hheld : HoldsTasks s held) :
    Ready s.frames s.made held (defaultloopTaskInit none s) := by
  have hinit : defaultloopTaskInit none s =
      { makeTask s .unset with
        defaultCtx := some s.made, onExit := none, curTaskCtx := some s.made } := by
    rw [defaultloopTaskInit, makeDefaultTask, h.defaultCtx]
    simp [makeTask, h.curTaskCtx]
  have hs := h.inLoopCode
  rw [hinit]
  refine ⟨⟨hs.running, hs.control, hs.frames⟩, rfl, rfl, rfl, Nat.lt_succ_self _, ?_, ?_⟩
  · exact hheld.makeTask .unset
  · exact fun hmem => absurd (hheld _ hmem).1 (Nat.lt_irrefl _)

theorem Uninitialised.quiet {program : List Call} (h : Uninitialised s)
    (hprogram : LoopProgram held.length program) :
    Quiet s.frames (.start s held program) := by
  refine ⟨rfl, hprogram, ?_, ?_⟩
  · rintro _ ⟨⟩
    exact ⟨h.inLoopCode, rfl⟩
  · rintro _ ⟨⟩
    exact .inl h.curTaskCtx

theorem Ready.quiet {program : List Call} (h : Ready frames default held s)
    (hprogram : LoopProgram held.length program) (hmake : ∀ call ∈ program, call = .makeTask) :
    Quiet frames (.start s held program) := by
  refine ⟨rfl, hprogram, ?_, ?_⟩
  · rintro _ ⟨⟩
    exact ⟨h.inLoopCode, h.frames⟩
  · rintro _ ⟨⟩
    exact .inr hmake

/-- What is started without initialisation makes no step, and what is started behind it does. -/
theorem Ready.steps_differ {initialised : Scheduler} {program : List Call} (h : Uninitialised s)
    (hready : Ready s.frames default held initialised)
    (hprogram : LoopProgram held.length program) (hcall : ∃ call ∈ program, call ≠ .makeTask) :
    ¬ SameTaskSteps behaviour s.frames (.start initialised held program)
      (.start s held program) := by
  intro hsame
  obtain ⟨n, hn⟩ := @Ready.task_step behaviour initialised s.frames
    (.start initialised held program) default rfl hready hprogram hcall
  obtain ⟨m, hm⟩ := (hsame _).mp ⟨n, rfl⟩
  exact hn (hm.symm.trans ((h.quiet hprogram).after m).steps)

/-- A fresh process goes through the same task steps with and without initialisation
exactly if its loop code only makes tasks. -/
theorem same_task_steps_iff (behaviour : Behaviour) {program : List Call}
    (hs : Uninitialised s) (hheld : HoldsTasks s held)
    (hprogram : LoopProgram held.length program) :
    SameTaskSteps behaviour s.frames (.start (defaultloopTaskInit none s) held program)
        (.start s held program) ↔
      ∀ call ∈ program, call = .makeTask := by
  have hready := hs.ready hheld
  constructor
  · intro hsame
    by_contra hcall
    push Not at hcall
    exact hready.steps_differ hs hprogram hcall hsame
  · intro hmake steps
    constructor
    · rintro ⟨n, rfl⟩
      exact ⟨0, (((hready.quiet hprogram hmake).after n).steps).symm⟩
    · rintro ⟨n, rfl⟩
      exact ⟨0, (((hs.quiet hprogram).after n).steps).symm⟩

/-- A task that exits as soon as it is started. -/
def exitsAtOnce : Behaviour := fun _ => some (.exitTask 0 none none)

theorem made_tasks_make_no_step :
    SameTaskSteps exitsAtOnce [] (.start (defaultloopTaskInit none .init) [] [.makeTask, .makeTask])
      (.start .init [] [.makeTask, .makeTask]) := by
  have hheld : HoldsTasks .init [] := fun _ hmem => absurd hmem List.not_mem_nil
  have hprogram : LoopProgram 0 [.makeTask, .makeTask] := trivial
  exact (same_task_steps_iff exitsAtOnce .fresh hheld hprogram).mpr (by decide)

/-- Without initialisation `start_task` starts nothing. -/
theorem start_dropped_without_initialisation :
    ¬ SameTaskSteps exitsAtOnce []
      (.start (defaultloopTaskInit none .init) [] [.makeTask, .startTask 0])
      (.start .init [] [.makeTask, .startTask 0]) := by
  have hheld : HoldsTasks .init [] := fun _ hmem => absurd hmem List.not_mem_nil
  exact (Uninitialised.fresh.ready hheld).steps_differ .fresh ⟨Nat.one_pos, trivial⟩
    ⟨.startTask 0, by decide, by decide⟩

end EventLoop.Task
