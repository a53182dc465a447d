import EventLoop.Task.Ownership

/-!
What becomes of callbacks and of tasks that exit. `ifCompleted_task` looks at the context
that the innermost switch of the loop went to, whoever comes back from it, and tests
`bCompleted` once the callback is over, whatever the callback has led to. So each callback
runs once and each task is destroyed once as long as the loop is come back to in order.
-/

namespace EventLoop.Task

/-- The request as it runs: on the loop, with its own context and argument. -/
def Request.asRun (request : Request) : CallbackRun :=
  ⟨.loop, request.ctx, request.callback, some request.callbackCtx⟩

/-- `ifCompleted_task(ctx)` is open. -/
def Frame.completes (ctx : Nat) : Frame → Bool
  | .ifCompletedCallback ctx' | .ifCompletedExit ctx' => ctx' == ctx
  | _ => false

/-- Callbacks have run as requested, all of them whenever user code is executing; a task
that exited is destroyed, or about to be by a call open on the loop, and never twice; no
field of a destroyed context was accessed. -/
structure ExactlyOnce (s : Scheduler) : Prop where
  accessed : s.staleAccess = false
  destroyed_nodup : s.destroys.Nodup
  destroyed_exited : ∀ ctx ∈ s.destroys, ctx ∈ s.exits
  exited : s.control = .user → ∀ ctx ∈ s.exits,
    ctx ∈ s.destroys ∨ ∃ frame ∈ loopStack s, frame.completes ctx = true
  ran_prefix : s.runs <+: s.requests.map Request.asRun
  ran : s.control = .user → s.runs = s.requests.map Request.asRun

/-- The context that the innermost switch of the loop went to. -/
def switchedTo (s : Scheduler) : Option Nat :=
  match loopStack s with
  | .afterSwap newCtx :: _ => some newCtx
  | _ => none

/-- The context asks nothing of the loop. -/
def Unclaimed (s : Scheduler) (ctx : Nat) : Prop :=
  (s.ctxs ctx).callback = none ∧ (s.ctxs ctx).bCompleted = false

/-- A task comes back to the loop without a callback only if the context the loop
switched to asks for nothing; with a callback only if it is that context, and has not
exited; by `exit_task` only if it is that context, and `ifCompleted_task` is not open
for it. -/
def InOrder (s : Scheduler) : Call → Prop
  | .switch2task curCtx newCtx =>
      s.running = .task curCtx → s.defaultCtx = some newCtx →
        ∀ ctx, switchedTo s = some ctx → Unclaimed s ctx
  | .schedDefaultloop curCtx =>
      s.running = .task curCtx → ∀ ctx, switchedTo s = some ctx → Unclaimed s ctx
  | .callbackOnDefaultloop curCtx callback _ | .sleepTaskOnDefaultloop curCtx callback _ =>
      ∀ ctx, switchedTo s = some ctx →
        if ctx = curCtx then (s.ctxs ctx).bCompleted = false
        else callback = none ∧ Unclaimed s ctx
  | .exitTask curCtx _ _ =>
      switchedTo s = some curCtx ∧ ∀ frame ∈ loopStack s, frame.completes curCtx = false
  | .makeTask | .startTask _ | .schedTask _ | .defaultloopHandlerForTask _ _ _ => True

/-- Calls as the interface has them: between live contexts, and a task for itself. -/
def OnLive (s : Scheduler) : Action → Prop
  | .call call => Reaches s call
  | .userReturn | .library => True

def Orderly (s : Scheduler) : Action → Prop
  | .call call => Reaches s call ∧ InOrder s call
  | .userReturn | .library => True

variable {default : Nat} {s s' : Scheduler} {opens rest : List Frame} {due : Option Nat}
  {pending : List CallbackRun} {ctx : Nat}

/-- What the open calls on the loop owe: every exited context is owed one destruction,
by one call or, if it is `due`, by the check that comes next, and `pending` are the
callbacks still to run. -/
structure Ledger (s : Scheduler) (opens : List Frame) (due : Option Nat)
    (pending : List CallbackRun) : Prop where
  accessed : s.staleAccess = false
  opens_completion : ∀ frame ∈ opens,
    ∃ ctx, frame.completes ctx = true ∧ (s.ctxs ctx).live = true
  completed_open : ∀ ctx, (s.ctxs ctx).bCompleted = true → (s.ctxs ctx).live = true →
    opens.countP (Frame.completes ctx) = if due = some ctx then 0 else 1
  exit_completed : ∀ ctx, .ifCompletedExit ctx ∈ opens → (s.ctxs ctx).bCompleted = true
  exits_iff : ∀ ctx, ctx ∈ s.exits ↔ (s.ctxs ctx).bCompleted = true
  destroys_nodup : s.destroys.Nodup
  destroys_iff : ∀ ctx, ctx ∈ s.destroys ↔
    (s.ctxs ctx).bCompleted = true ∧ (s.ctxs ctx).live = false
  requests_eq : s.requests.map Request.asRun = s.runs ++ pending

theorem completes_unique {frame : Frame} {ctx ctx' : Nat} (h : frame.completes ctx = true)
    (h' : frame.completes ctx' = true) : ctx = ctx' := by
  cases frame with
  | ifCompletedCallback c | ifCompletedExit c =>
      simp only [Frame.completes, beq_iff_eq] at h h'
      exact h.symm.trans h'
  | afterSwap | callbackOn | sleeping | exiting => simp [Frame.completes] at h

/-- The accounts depend on the contexts through `bCompleted` and on their being live. -/
theorem Ledger.congr (h : Ledger s opens due pending) {pending' : List CallbackRun}
    (haccess : s'.staleAccess = s.staleAccess)
    (hctxs : ∀ ctx, (s'.ctxs ctx).live = (s.ctxs ctx).live ∧
      (s'.ctxs ctx).bCompleted = (s.ctxs ctx).bCompleted)
    (hexits : s'.exits = s.exits) (hdestroys : s'.destroys = s.destroys)
    (hrequests : s'.requests.map Request.asRun = s'.runs ++ pending') :
    Ledger s' opens due pending' where
  accessed := by rw [haccess, h.accessed]
  opens_completion := by
    intro frame hframe
    obtain ⟨ctx, hctx, hlive⟩ := h.opens_completion frame hframe
    exact ⟨ctx, hctx, by rw [(hctxs ctx).1, hlive]⟩
  completed_open := by
    intro ctx
    rw [(hctxs ctx).1, (hctxs ctx).2]
    exact h.completed_open ctx
  exit_completed := by
    intro ctx hmem
    rw [(hctxs ctx).2]
    exact h.exit_completed ctx hmem
  exits_iff := by
    intro ctx
    rw [hexits, (hctxs ctx).2]
    exact h.exits_iff ctx
  destroys_nodup := by rw [hdestroys]; exact h.destroys_nodup
  destroys_iff := by
    intro ctx
    rw [hdestroys, (hctxs ctx).1, (hctxs ctx).2]
    exact h.destroys_iff ctx
  requests_eq := hrequests

/-- A context that has not exited may be checked. -/
theorem Ledger.await (h : Ledger s opens none pending)
    (hgoing : (s.ctxs ctx).bCompleted = false) : Ledger s opens (some ctx) pending := by
  refine { h with completed_open := ?_ }
  intro ctx' hcompleted hlive
  rw [h.completed_open ctx' hcompleted hlive, if_neg (by simp), if_neg]
  intro heq
  obtain rfl := Option.some.inj heq
  exact absurd (hgoing.symm.trans hcompleted) (by simp)

/-- The check of a context that has not exited comes to nothing. -/
theorem Ledger.pass (h : Ledger s opens (some ctx) pending)
    (hgoing : (s.ctxs ctx).bCompleted = false) : Ledger s opens none pending := by
  refine { h with completed_open := ?_ }
  intro ctx' hcompleted hlive
  rw [h.completed_open ctx' hcompleted hlive, if_neg, if_neg (by simp)]
  intro heq
  obtain rfl := Option.some.inj heq
  exact absurd (hgoing.symm.trans hcompleted) (by simp)

/-- The innermost open call gets to its check. -/
theorem Ledger.shut {frame : Frame} (h : Ledger s (frame :: rest) none pending)
    (hframe : frame.completes ctx = true) : Ledger s rest (some ctx) pending where
  accessed := h.accessed
  opens_completion := fun frame hmem => h.opens_completion frame (List.mem_cons_of_mem _ hmem)
  completed_open := by
    intro ctx' hcompleted hlive
    have hcount := h.completed_open ctx' hcompleted hlive
    rw [if_neg (by simp), List.countP_cons] at hcount
    split
    · rename_i heq
      obtain rfl := Option.some.inj heq
      rw [if_pos hframe] at hcount
      exact Nat.succ.inj hcount
    · rename_i hne
      rw [if_neg] at hcount
      · exact hcount
      · exact fun hframe' => hne (congrArg some (completes_unique hframe hframe'))
  exit_completed := fun ctx hmem => h.exit_completed ctx (List.mem_cons_of_mem _ hmem)
  exits_iff := h.exits_iff
  destroys_nodup := h.destroys_nodup
  destroys_iff := h.destroys_iff
  requests_eq := h.requests_eq

/-- The check opens a call of its own. -/
theorem Ledger.opened {frame : Frame} (h : Ledger s rest (some ctx) pending)
    (hframe : frame.completes ctx = true) (hlive : (s.ctxs ctx).live = true)
    (hexit : frame = .ifCompletedExit ctx → (s.ctxs ctx).bCompleted = true) :
    Ledger s (frame :: rest) none pending where
  accessed := h.accessed
  opens_completion := List.forall_mem_cons.mpr ⟨⟨ctx, hframe, hlive⟩, h.opens_completion⟩
  completed_open := by
    intro ctx' hcompleted hlive'
    have hcount := h.completed_open ctx' hcompleted hlive'
    rw [if_neg (by simp), List.countP_cons, hcount]
    by_cases heq : ctx = ctx'
    · rw [if_pos (congrArg some heq), if_pos (heq ▸ hframe)]
    · rw [if_neg (fun h => heq (Option.some.inj h)), if_neg]
      exact fun hframe' => heq (completes_unique hframe hframe')
  exit_completed := by
    intro ctx' hmem
    rcases List.mem_cons.mp hmem with rfl | htail
    · obtain rfl : ctx' = ctx := eq_of_beq hframe
      exact hexit rfl
    · exact h.exit_completed ctx' htail
  exits_iff := h.exits_iff
  destroys_nodup := h.destroys_nodup
  destroys_iff := h.destroys_iff
  requests_eq := h.requests_eq

theorem destroyTask_ctxs_of_ne (s : Scheduler) {ctx ctx' : Nat} (hne : ctx' ≠ ctx) :
    (destroyTask s ctx).ctxs ctx' = s.ctxs ctx' :=
  Function.update_of_ne hne _ _

theorem destroyTask_ctxs_self (s : Scheduler) (ctx : Nat) :
    (destroyTask s ctx).ctxs ctx = { s.ctxs ctx with live := false } :=
  Function.update_self _ _ _

/-- The check destroys a context that has exited: no open call is left for it. -/
theorem Ledger.destroyTask (h : Ledger s rest (some ctx) pending)
    (hlive : (s.ctxs ctx).live = true) (hcompleted : (s.ctxs ctx).bCompleted = true) :
    Ledger (destroyTask s ctx) rest none pending := by
  have hfresh : ctx ∉ s.destroys := by
    intro hmem
    exact absurd (hlive.symm.trans ((h.destroys_iff ctx).mp hmem).2) (by simp)
  have hnone := h.completed_open ctx hcompleted hlive
  rw [if_pos rfl, List.countP_eq_zero] at hnone
  constructor
  · exact h.accessed
  · intro frame hframe
    obtain ⟨ctx', hctx', hlive'⟩ := h.opens_completion frame hframe
    have hne : ctx' ≠ ctx := by
      rintro rfl
      exact hnone frame hframe hctx'
    exact ⟨ctx', hctx', by rw [destroyTask_ctxs_of_ne s hne, hlive']⟩
  · intro ctx' hcompleted' hlive'
    by_cases heq : ctx' = ctx
    · rw [heq, destroyTask_ctxs_self] at hlive'
      exact absurd hlive' (by simp)
    · rw [destroyTask_ctxs_of_ne s heq] at hcompleted' hlive'
      rw [h.completed_open ctx' hcompleted' hlive',
        if_neg (fun hsome => heq (Option.some.inj hsome).symm), if_neg (by simp)]
  · intro ctx' hmem
    have hold := h.exit_completed ctx' hmem
    by_cases heq : ctx' = ctx
    · rw [heq, destroyTask_ctxs_self]
      exact hcompleted
    · rw [destroyTask_ctxs_of_ne s heq, hold]
  · intro ctx'
    have hold := h.exits_iff ctx'
    by_cases heq : ctx' = ctx
    · rw [heq, destroyTask_ctxs_self]
      exact heq ▸ hold
    · rw [destroyTask_ctxs_of_ne s heq]
      exact hold
  · exact List.nodup_append.mpr ⟨h.destroys_nodup, List.nodup_singleton ctx, by
      rintro a ha b hb rfl
      exact hfresh (List.mem_singleton.mp hb ▸ ha)⟩
  · intro ctx'
    change ctx' ∈ s.destroys ++ [ctx] ↔ _
    rw [List.mem_append, List.mem_singleton, h.destroys_iff ctx']
    by_cases heq : ctx' = ctx
    · rw [heq, destroyTask_ctxs_self]
      exact iff_of_true (.inr rfl) ⟨hcompleted, rfl⟩
    · rw [destroyTask_ctxs_of_ne s heq]
      exact or_iff_left heq
  · exact h.requests_eq

/-- The callback that `ifCompleted_task(ctx)` would call. -/
def dueRun (s : Scheduler) (ctx : Nat) : List CallbackRun :=
  ((s.ctxs ctx).callback.map
    (fun callback => ⟨.loop, ctx, callback, (s.ctxs ctx).callbackCtx⟩)).toList

/-- User code is executing on the loop. -/
structure InLoop (s : Scheduler) (opens : List Frame) : Prop where
  running : s.running = .loop
  control : s.control = .user
  frames : s.frames = opens
  ledger : Ledger s opens none []

/-- A task is executing; the loop was left for `ctx`. -/
structure InTask (s : Scheduler) (ctx : Nat) (opens : List Frame) : Prop where
  running : s.running ≠ .loop
  suspended : s.suspended .loop = some (.afterSwap ctx :: opens)
  live : (s.ctxs ctx).live = true
  ledger : Ledger s opens none []

/-- The loop was come back to, and checks `ctx` next. -/
structure Arriving (s : Scheduler) (ctx : Nat) (opens : List Frame) : Prop where
  running : s.running = .loop
  control : s.control = .library
  frames : s.frames = .afterSwap ctx :: opens
  live : (s.ctxs ctx).live = true
  ledger : Ledger s opens (some ctx) (dueRun s ctx)

def Accounted (s : Scheduler) : Prop :=
  (∃ opens, InLoop s opens) ∨ (∃ ctx opens, InTask s ctx opens) ∨
    ∃ ctx opens, Arriving s ctx opens

theorem Ledger.callerControl (h : Ledger s opens due pending) : callerControl opens = .user := by
  cases opens with
  | nil => rfl
  | cons frame rest =>
      obtain ⟨ctx, hctx, -⟩ := h.opens_completion frame (List.mem_cons_self ..)
      cases frame with
      | ifCompletedCallback | ifCompletedExit => rfl
      | afterSwap | callbackOn | sleeping | exiting => simp [Frame.completes] at hctx

theorem Ledger.inLoop (h : Ledger s opens none []) (hloop : s.running = .loop) :
    InLoop (s.returnTo opens) opens where
  running := hloop
  control := h.callerControl
  frames := rfl
  ledger := h.congr rfl (fun _ => ⟨rfl, rfl⟩) rfl rfl h.requests_eq

theorem Ledger.completedCheck (h : Ledger s rest (some ctx) []) (hloop : s.running = .loop)
    (hlive : (s.ctxs ctx).live = true) (hasExitCallback : Bool) :
    ∃ opens, InLoop (completedCheck s ctx hasExitCallback rest) opens := by
  rw [Task.completedCheck, access_of_live hlive]
  split
  · rename_i hcompleted
    split
    · have hopened : Ledger s (.ifCompletedExit ctx :: rest) none [] :=
        h.opened (beq_self_eq_true ctx) hlive (fun _ => hcompleted)
      refine ⟨.ifCompletedExit ctx :: rest, hloop, rfl, rfl, ?_⟩
      exact hopened.congr rfl (fun _ => ⟨rfl, rfl⟩) rfl rfl h.requests_eq
    · exact ⟨rest, (h.destroyTask hlive hcompleted).inLoop hloop⟩
  · rename_i hgoing
    exact ⟨rest, (h.pass (eq_false_of_ne_true hgoing)).inLoop hloop⟩

/-- The loop calls the callback it is due, or gets to the check at once. -/
theorem Arriving.ifCompletedTask (h : Arriving s ctx opens) :
    ∃ opens', InLoop (ifCompletedTask s ctx opens) opens' := by
  have hledger := h.ledger
  rw [Task.ifCompletedTask, access_of_live h.live]
  cases hcallback : (s.ctxs ctx).callback with
  | some callback =>
      have hdue : dueRun s ctx = [⟨.loop, ctx, callback, (s.ctxs ctx).callbackCtx⟩] := by
        rw [dueRun, hcallback]
        rfl
      have hopened : Ledger s (.ifCompletedCallback ctx :: opens) none (dueRun s ctx) :=
        hledger.opened (beq_self_eq_true ctx) h.live (by simp)
      refine ⟨.ifCompletedCallback ctx :: opens, h.running, rfl, rfl, ?_⟩
      refine hopened.congr rfl (fun _ => ⟨rfl, rfl⟩) rfl rfl ?_
      change _ = (s.runs ++ [⟨s.running, ctx, callback, (s.ctxs ctx).callbackCtx⟩]) ++ []
      rw [List.append_nil, h.running, ← hdue]
      exact hledger.requests_eq
  | none =>
      have hdue : dueRun s ctx = [] := by
        rw [dueRun, hcallback]
        rfl
      rw [hdue] at hledger
      exact hledger.completedCheck h.running h.live false

theorem callbackCleared_fields (s : Scheduler) (ctx ctx' : Nat) :
    ((callbackCleared s ctx).ctxs ctx').live = (s.ctxs ctx').live ∧
      ((callbackCleared s ctx).ctxs ctx').bCompleted = (s.ctxs ctx').bCompleted := by
  rw [callbackCleared, modify_field TaskCtx.live, modify_field TaskCtx.bCompleted]
  · exact ⟨rfl, rfl⟩
  · exact fun _ => rfl
  · exact fun _ => rfl

/-- A callback or exit hook returns to a context that is still there. -/
theorem InLoop.userReturn (h : InLoop s opens) (hstep : userReturn s = some s') :
    ∃ opens', InLoop s' opens' := by
  have hledger := h.ledger
  have hopens := h.frames
  rcases userReturn_cases hstep with ⟨ctx, rest, hframes, rfl⟩ | ⟨ctx, rest, hframes, rfl⟩
  · obtain rfl := hopens.symm.trans hframes
    obtain ⟨ctx', hctx', hlive⟩ := hledger.opens_completion _ (List.mem_cons_self ..)
    obtain rfl : ctx = ctx' := eq_of_beq hctx'
    have hfields := callbackCleared_fields s ctx
    have hcleared : Ledger (callbackCleared s ctx) rest (some ctx) [] := by
      exact (hledger.shut hctx').congr (staleAccess_of_live hlive) hfields rfl rfl
        hledger.requests_eq
    exact hcleared.completedCheck h.running ((hfields ctx).1.trans hlive) true
  · obtain rfl := hopens.symm.trans hframes
    obtain ⟨ctx', hctx', hlive⟩ := hledger.opens_completion _ (List.mem_cons_self ..)
    obtain rfl : ctx = ctx' := eq_of_beq hctx'
    have hcompleted := hledger.exit_completed ctx (List.mem_cons_self ..)
    exact ⟨rest, ((hledger.shut hctx').destroyTask hlive hcompleted).inLoop h.running⟩

theorem Ledger.switched (h : Ledger s opens due pending) (hcore : Core default s)
    (newCtx : Nat) : Ledger (switched default s newCtx) opens due pending := by
  refine h.congr (hcore.left_staleAccess newCtx) ?_ rfl rfl h.requests_eq
  intro ctx
  obtain ⟨hlive, hcompleted, -, -⟩ := left_fields default s newCtx ctx
  exact ⟨hlive, hcompleted⟩

theorem dueRun_switched (default : Nat) (s : Scheduler) (newCtx ctx : Nat) :
    dueRun (switched default s newCtx) ctx = dueRun s ctx := by
  obtain ⟨-, -, hcallback, hcallbackCtx⟩ := left_fields default s newCtx ctx
  change dueRun (left default s newCtx) ctx = dueRun s ctx
  simp only [dueRun, hcallback, hcallbackCtx]

/-- A context that asks for nothing may be checked. -/
theorem Ledger.unclaimed (h : Ledger s opens none []) (hclaim : Unclaimed s ctx) :
    Ledger s opens (some ctx) (dueRun s ctx) := by
  have hdue : dueRun s ctx = [] := by
    rw [dueRun, hclaim.1]
    rfl
  rw [hdue]
  exact h.await hclaim.2

/-- The loop is come back to where it was left. -/
theorem Core.arriving (hcore : Core default s) (hrunning : s.running ≠ .loop)
    (hsuspended : s.suspended .loop = some (.afterSwap ctx :: opens))
    (hlive : (s.ctxs ctx).live = true) (hledger : Ledger s opens (some ctx) (dueRun s ctx)) :
    Arriving (Task.switched default s default) ctx opens := by
  have howner : ownerOf default default = .loop := if_pos rfl
  have htarget : target default s default = (.afterSwap ctx :: opens, .library) := by
    rw [target, howner, if_neg (Ne.symm hrunning), hsuspended]
  constructor
  · exact howner
  · exact congrArg Prod.snd htarget
  · exact congrArg Prod.fst htarget
  · exact (left_fields default s default ctx).1.trans hlive
  · rw [dueRun_switched]
    exact hledger.switched hcore default

theorem InLoop.switched (h : InLoop s opens) (hcore : Core default s) {newCtx : Nat}
    (hnew : (s.ctxs newCtx).live = true) : Accounted (switched default s newCtx) := by
  by_cases heq : newCtx = default
  · -- the loop switches to itself
    subst heq
    have howner : ownerOf newCtx newCtx = .loop := if_pos rfl
    have htarget : target newCtx s newCtx = (.afterSwap newCtx :: opens, .library) := by
      rw [target, howner, if_pos h.running.symm, h.frames]
    refine .inr (.inr ⟨newCtx, opens, howner, congrArg Prod.snd htarget,
      congrArg Prod.fst htarget, (left_fields newCtx s newCtx newCtx).1.trans hnew, ?_⟩)
    rw [dueRun_switched]
    exact (h.ledger.unclaimed ⟨hcore.default_idle.2, hcore.default_idle.1⟩).switched hcore newCtx
  · have howner : ownerOf default newCtx = .task newCtx := if_neg heq
    have hsuspended := left_suspended_self default s newCtx
    rw [h.running, h.frames] at hsuspended
    refine .inr (.inl ⟨newCtx, opens, ?_, hsuspended,
      (left_fields default s newCtx newCtx).1.trans hnew, h.ledger.switched hcore newCtx⟩)
    change ownerOf default newCtx ≠ .loop
    rw [howner]
    simp

/-- Between tasks the loop stays as it was left. -/
theorem InTask.switched (h : InTask s ctx opens) (hcore : Core default s) {newCtx : Nat}
    (hne : newCtx ≠ default) : InTask (switched default s newCtx) ctx opens where
  running := by
    change ownerOf default newCtx ≠ .loop
    rw [ownerOf, if_neg hne]
    simp
  suspended :=
    (left_suspended_of_ne default newCtx (Ne.symm h.running)).trans h.suspended
  live := (left_fields default s newCtx ctx).1.trans h.live
  ledger := h.ledger.switched hcore newCtx

theorem InTask.loopStack (h : InTask s ctx opens) : loopStack s = .afterSwap ctx :: opens := by
  rw [Task.loopStack, if_neg h.running, h.suspended]
  rfl

theorem InTask.switchedTo (h : InTask s ctx opens) : switchedTo s = some ctx := by
  rw [Task.switchedTo, h.loopStack]

theorem InTask.returns (h : InTask s ctx opens) (hcore : Core default s)
    (hclaim : Unclaimed s ctx) : Arriving (Task.switched default s default) ctx opens :=
  hcore.arriving h.running h.suspended h.live (h.ledger.unclaimed hclaim)

theorem InLoop.droppedSwitch (h : InLoop s opens) : InLoop (droppedSwitch s) opens := by
  obtain ⟨hrunning, -, rfl, hledger⟩ := h
  exact Ledger.inLoop (s := { s with dropped := s.dropped + 1 })
    (hledger.congr rfl (fun _ => ⟨rfl, rfl⟩) rfl rfl hledger.requests_eq) hrunning

theorem InTask.droppedSwitch (h : InTask s ctx opens) : InTask (droppedSwitch s) ctx opens :=
  ⟨h.running, h.suspended, h.live,
    h.ledger.congr rfl (fun _ => ⟨rfl, rfl⟩) rfl rfl h.ledger.requests_eq⟩

theorem Ledger.makeTask (h : Ledger s opens due pending) (hcore : Core default s) :
    Ledger (makeTask s .entry) opens due pending := by
  have hblank := (hcore.blank s.made (Nat.le_refl _)).1
  have hother {ctx : Nat} (hne : ctx ≠ s.made) : (Task.makeTask s .entry).ctxs ctx = s.ctxs ctx :=
    Function.update_of_ne hne _ _
  have hnew : (Task.makeTask s .entry).ctxs s.made = .fresh .entry := Function.update_self _ _ _
  have hcompleted (ctx : Nat) :
      ((Task.makeTask s .entry).ctxs ctx).bCompleted = (s.ctxs ctx).bCompleted := by
    by_cases heq : ctx = s.made
    · rw [heq, hnew, hblank]
      rfl
    · rw [hother heq]
  have hgoing {ctx : Nat} (hctx : (s.ctxs ctx).bCompleted = true) : ctx ≠ s.made := by
    rintro rfl
    rw [hblank] at hctx
    exact absurd hctx (by simp [TaskCtx.blank])
  constructor
  · exact h.accessed
  · intro frame hframe
    obtain ⟨ctx, hctx, hlive⟩ := h.opens_completion frame hframe
    exact ⟨ctx, hctx, by rw [hother (Nat.ne_of_lt (hcore.lt_made hlive)), hlive]⟩
  · intro ctx hctx hlive
    rw [hcompleted] at hctx
    rw [hother (hgoing hctx)] at hlive
    exact h.completed_open ctx hctx hlive
  · intro ctx hmem
    rw [hcompleted]
    exact h.exit_completed ctx hmem
  · intro ctx
    rw [hcompleted]
    exact h.exits_iff ctx
  · exact h.destroys_nodup
  · intro ctx
    change ctx ∈ s.destroys ↔ _
    rw [h.destroys_iff, hcompleted]
    apply and_congr_right
    intro hctx
    rw [hother (hgoing hctx)]
  · exact h.requests_eq

theorem InLoop.makeTask (h : InLoop s opens) (hcore : Core default s) :
    InLoop (makeTask s .entry) opens :=
  ⟨h.running, h.control, h.frames, h.ledger.makeTask hcore⟩

theorem InTask.makeTask (h : InTask s ctx opens) (hcore : Core default s) :
    InTask (makeTask s .entry) ctx opens := by
  refine ⟨h.running, h.suspended, ?_, h.ledger.makeTask hcore⟩
  have hother : (Task.makeTask s .entry).ctxs ctx = s.ctxs ctx :=
    Function.update_of_ne (Nat.ne_of_lt (hcore.lt_made h.live)) _ _
  rw [hother, h.live]

/-- A field that the accounts do not depend on. -/
theorem Ledger.modify (h : Ledger s opens due pending) (hlive : (s.ctxs ctx).live = true)
    (f : TaskCtx → TaskCtx) (hf : ∀ c, (f c).live = c.live)
    (hf' : ∀ c, (f c).bCompleted = c.bCompleted) : Ledger (s.modify ctx f) opens due pending := by
  refine h.congr (staleAccess_of_live hlive) ?_ rfl rfl h.requests_eq
  exact fun c => ⟨modify_field TaskCtx.live s ctx f hf c,
    modify_field TaskCtx.bCompleted s ctx f hf' c⟩

theorem Ledger.handled (h : Ledger s opens due pending) (hlive : (s.ctxs ctx).live = true)
    (userData : Ptr) (bTimeout : Bool) :
    Ledger (handled s ctx userData bTimeout) opens due pending :=
  h.modify hlive _ (fun _ => rfl) (fun _ => rfl)

/-- Loop code may call as it likes. -/
theorem InLoop.performCall (h : InLoop s opens) (hcore : Core default s) {call : Call}
    (hreaches : Reaches s call) (hstep : performCall s call = some s') : Accounted s' := by
  cases call with
  | makeTask =>
      obtain rfl := Option.some.inj hstep
      exact .inl ⟨opens, h.makeTask hcore⟩
  | startTask ctx | schedTask ctx =>
      have heq := hcore.schedTask_eq hreaches
      rw [if_pos h.running] at heq
      simp only [Task.performCall, startTask, hcore.makeDefaultTask] at hstep
      obtain rfl := Option.some.inj (heq.symm.trans hstep)
      exact h.switched hcore (hreaches h.running)
  | defaultloopHandlerForTask ctx userData bTimeout =>
      have heq := hcore.defaultloopHandlerForTask_eq hreaches userData bTimeout
      rw [if_pos h.running] at heq
      obtain rfl := Option.some.inj (heq.symm.trans hstep)
      have hhandled : InLoop (handled s ctx userData bTimeout) opens :=
        ⟨h.running, h.control, h.frames, h.ledger.handled hreaches userData bTimeout⟩
      exact hhandled.switched (hcore.handled hreaches userData bTimeout)
        ((handled_live s ctx userData bTimeout ctx).trans hreaches)
  | switch2task curCtx newCtx =>
      have hnew := hcore.live_of_reaches hreaches
      obtain rfl := Option.some.inj ((hcore.switch2task_cases hnew).symm.trans hstep)
      split
      · exact h.switched hcore (hnew ‹_›)
      · exact .inl ⟨opens, h.droppedSwitch⟩
  | schedDefaultloop ctx =>
      obtain rfl := Option.some.inj ((hcore.schedDefaultloop_eq ctx).symm.trans hstep)
      split
      · exact h.switched hcore hcore.default_live
      · exact .inl ⟨opens, h.droppedSwitch⟩
  | callbackOnDefaultloop | sleepTaskOnDefaultloop | exitTask =>
      exact absurd (h.running.symm.trans hreaches) (by simp)

/-- The callback that a call asks for. -/
def requestedRun (ctx : Nat) (callback callbackCtx : Option Ptr) : List CallbackRun :=
  (callback.map (fun function =>
    ⟨.loop, ctx, function, some ((callbackCtx.map .given).getD (.self ctx))⟩)).toList

theorem dueRun_setCallback (s : Scheduler) (ctx : Nat) (callback callbackCtx : Option Ptr) :
    dueRun (setCallback s ctx callback callbackCtx) ctx =
      requestedRun ctx callback callbackCtx := by
  have hself : (setCallback s ctx callback callbackCtx).ctxs ctx = { s.ctxs ctx with
      callbackCtx := some ((callbackCtx.map .given).getD (.self ctx)), callback } :=
    Function.update_self _ _ _
  rw [dueRun, hself, requestedRun]

theorem setCallback_fields (s : Scheduler) (ctx : Nat) (callback callbackCtx : Option Ptr)
    (c : Nat) :
    ((setCallback s ctx callback callbackCtx).ctxs c).live = (s.ctxs c).live ∧
      ((setCallback s ctx callback callbackCtx).ctxs c).bCompleted = (s.ctxs c).bCompleted := by
  let f (c : TaskCtx) : TaskCtx :=
    { c with callbackCtx := some ((callbackCtx.map .given).getD (.self ctx)), callback }
  exact ⟨modify_field TaskCtx.live s ctx f (fun _ => rfl) c,
    modify_field TaskCtx.bCompleted s ctx f (fun _ => rfl) c⟩

theorem Ledger.setCallback (h : Ledger s opens due []) (hlive : (s.ctxs ctx).live = true)
    (callback callbackCtx : Option Ptr) :
    Ledger (setCallback s ctx callback callbackCtx) opens due
      (requestedRun ctx callback callbackCtx) := by
  refine h.congr (staleAccess_of_live hlive) (setCallback_fields s ctx callback callbackCtx)
    rfl rfl ?_
  have hold := h.requests_eq
  rw [List.append_nil] at hold
  change (s.requests ++ _).map Request.asRun = s.runs ++ _
  rw [List.map_append, hold]
  cases callback with
  | none => rfl
  | some function => rfl

theorem Ledger.setCompleted (h : Ledger s opens none pending) (hlive : (s.ctxs ctx).live = true)
    (hclosed : ∀ frame ∈ opens, frame.completes ctx = false) :
    Ledger (setCompleted s ctx) opens (some ctx) pending := by
  have hself : (Task.setCompleted s ctx).ctxs ctx = { s.ctxs ctx with bCompleted := true } :=
    Function.update_self _ _ _
  have hother {c : Nat} (hne : c ≠ ctx) : (Task.setCompleted s ctx).ctxs c = s.ctxs c :=
    Function.update_of_ne hne _ _
  have hlives (c : Nat) : ((Task.setCompleted s ctx).ctxs c).live = (s.ctxs c).live :=
    modify_field TaskCtx.live s ctx (fun c => { c with bCompleted := true }) (fun _ => rfl) c
  constructor
  · exact (staleAccess_of_live hlive).trans h.accessed
  · intro frame hframe
    obtain ⟨c, hc, hlive'⟩ := h.opens_completion frame hframe
    exact ⟨c, hc, by rw [hlives, hlive']⟩
  · intro c hcompleted hlive'
    by_cases heq : c = ctx
    · rw [if_pos (congrArg some heq.symm), List.countP_eq_zero]
      intro frame hframe
      rw [heq, hclosed frame hframe]
      simp
    · rw [hother heq] at hcompleted hlive'
      rw [h.completed_open c hcompleted hlive', if_neg (by simp),
        if_neg (fun hsome => heq (Option.some.inj hsome).symm)]
  · intro c hmem
    have hold := h.exit_completed c hmem
    by_cases heq : c = ctx
    · rw [heq, hself]
    · rw [hother heq, hold]
  · intro c
    change c ∈ s.exits ++ [ctx] ↔ _
    rw [List.mem_append, List.mem_singleton, h.exits_iff c]
    by_cases heq : c = ctx
    · rw [heq, hself]
      exact iff_of_true (.inr rfl) rfl
    · rw [hother heq]
      exact or_iff_left heq
  · exact h.destroys_nodup
  · intro c
    change c ∈ s.destroys ↔ _
    rw [h.destroys_iff, hlives]
    by_cases heq : c = ctx
    · have hgone : ¬ (s.ctxs c).live = false := by
        rw [heq, hlive]
        simp
      exact iff_of_false (fun hold => hgone hold.2) (fun hnew => hgone hnew.2)
    · rw [hother heq]
  · exact h.requests_eq

/-- The task the loop was left for comes back with its callback. -/
theorem Core.arriving_self (hcore : Core default s) (howner : s.running = .task ctx)
    (hsuspended : s.suspended .loop = some (.afterSwap ctx :: opens))
    (hledger : Ledger s opens (some ctx) []) (callback callbackCtx : Option Ptr) :
    Arriving (Task.switched default (Task.setCallback s ctx callback callbackCtx) default)
      ctx opens := by
  have hlive := (hcore.running_task ctx howner).2.1
  have hset := hledger.setCallback hlive callback callbackCtx
  rw [← dueRun_setCallback s] at hset
  refine (hcore.setCallback howner callback callbackCtx).arriving ?_ hsuspended ?_ hset
  · change s.running ≠ .loop
    rw [howner]
    simp
  · exact (setCallback_fields s ctx callback callbackCtx ctx).1.trans hlive

/-- `callback_on_defaultloop` by the task the loop was left for, or without a callback. -/
theorem InTask.callbackOn {curCtx : Nat} (h : InTask s ctx opens) (hcore : Core default s)
    (howner : s.running = .task curCtx) {callback : Option Ptr} (callbackCtx : Option Ptr)
    (horder : if ctx = curCtx then (s.ctxs ctx).bCompleted = false
      else callback = none ∧ Unclaimed s ctx) :
    Arriving (Task.switched default (setCallback s curCtx callback callbackCtx) default)
      ctx opens := by
  split at horder
  · rename_i heq
    subst heq
    exact hcore.arriving_self howner h.suspended (h.ledger.await horder) callback callbackCtx
  · rename_i hne
    obtain ⟨rfl, hclaim⟩ := horder
    have hsame : (setCallback s curCtx none callbackCtx).ctxs ctx = s.ctxs ctx :=
      Function.update_of_ne hne _ _
    have hset : InTask (setCallback s curCtx none callbackCtx) ctx opens :=
      ⟨h.running, h.suspended, by rw [hsame, h.live],
        h.ledger.setCallback (hcore.running_task curCtx howner).2.1 none callbackCtx⟩
    apply hset.returns (hcore.setCallback howner none callbackCtx)
    rw [Unclaimed, hsame]
    exact hclaim

theorem running_of_ident {curCtx : Nat} (hrunning : s.running ≠ .loop)
    (heq : ident default s.running = curCtx) : s.running = .task curCtx := by
  cases howner : s.running with
  | loop => exact absurd howner hrunning
  | task running =>
      rw [howner] at heq
      exact congrArg Owner.task heq

theorem setSleeping_field {β : Type} (s : Scheduler) (curCtx ctx : Nat) (field : TaskCtx → β)
    (hf : ∀ c, field { c with bIsTimeout := -1 } = field c) :
    field ((setSleeping s curCtx).ctxs ctx) = field (s.ctxs ctx) :=
  modify_field field s curCtx _ hf ctx

theorem InTask.setSleeping {curCtx : Nat} (h : InTask s ctx opens)
    (hlive : (s.ctxs curCtx).live = true) : InTask (setSleeping s curCtx) ctx opens := by
  refine ⟨h.running, h.suspended, ?_, ?_⟩
  · exact (setSleeping_field s curCtx ctx TaskCtx.live (fun _ => rfl)).trans h.live
  · exact (h.ledger.modify hlive (fun c => { c with bIsTimeout := -1 }) (fun _ => rfl)
      (fun _ => rfl)).congr rfl (fun _ => ⟨rfl, rfl⟩) rfl rfl h.ledger.requests_eq

/-- Of the calls of a task those that go to the loop have to come in order. -/
theorem InTask.performCall (h : InTask s ctx opens) (hcore : Core default s) {call : Call}
    (hreaches : Reaches s call) (horder : InOrder s call)
    (hstep : performCall s call = some s') : Accounted s' := by
  cases call with
  | makeTask =>
      obtain rfl := Option.some.inj hstep
      exact .inr (.inl ⟨ctx, opens, h.makeTask hcore⟩)
  | startTask other | schedTask other =>
      have heq := hcore.schedTask_eq hreaches
      rw [if_neg h.running] at heq
      simp only [Task.performCall, startTask, hcore.makeDefaultTask] at hstep
      obtain rfl := Option.some.inj (heq.symm.trans hstep)
      exact .inr (.inl ⟨ctx, opens, h.droppedSwitch⟩)
  | defaultloopHandlerForTask other userData bTimeout =>
      have heq := hcore.defaultloopHandlerForTask_eq hreaches userData bTimeout
      rw [if_neg h.running] at heq
      obtain rfl := Option.some.inj (heq.symm.trans hstep)
      have hhandled : InTask (handled s other userData bTimeout) ctx opens :=
        ⟨h.running, h.suspended, (handled_live s other userData bTimeout ctx).trans h.live,
          h.ledger.handled hreaches userData bTimeout⟩
      exact .inr (.inl ⟨ctx, opens, hhandled.droppedSwitch⟩)
  | switch2task curCtx newCtx =>
      have hnew := hcore.live_of_reaches hreaches
      obtain rfl := Option.some.inj ((hcore.switch2task_cases hnew).symm.trans hstep)
      split
      · rename_i heq
        by_cases hback : newCtx = default
        · subst hback
          have howner := running_of_ident h.running heq
          have hclaim := horder howner hcore.default_eq ctx h.switchedTo
          exact .inr (.inr ⟨ctx, opens, h.returns hcore hclaim⟩)
        · exact .inr (.inl ⟨ctx, opens, h.switched hcore hback⟩)
      · exact .inr (.inl ⟨ctx, opens, h.droppedSwitch⟩)
  | schedDefaultloop curCtx =>
      obtain rfl := Option.some.inj ((hcore.schedDefaultloop_eq curCtx).symm.trans hstep)
      split
      · rename_i heq
        have howner := running_of_ident h.running heq
        exact .inr (.inr ⟨ctx, opens, h.returns hcore (horder howner ctx h.switchedTo)⟩)
      · exact .inr (.inl ⟨ctx, opens, h.droppedSwitch⟩)
  | callbackOnDefaultloop curCtx callback callbackCtx =>
      have heq := hcore.callbackOnDefaultloop_eq hreaches callback callbackCtx
      obtain rfl := Option.some.inj (heq.symm.trans hstep)
      exact .inr (.inr ⟨ctx, opens,
        h.callbackOn hcore hreaches callbackCtx (horder ctx h.switchedTo)⟩)
  | sleepTaskOnDefaultloop curCtx callback callbackCtx =>
      have heq := hcore.sleepTaskOnDefaultloop_eq hreaches callback callbackCtx
      obtain rfl := Option.some.inj (heq.symm.trans hstep)
      have hsleeping := h.setSleeping (hcore.running_task curCtx hreaches).2.1
      refine .inr (.inr ⟨ctx, opens,
        hsleeping.callbackOn (hcore.setSleeping hreaches) hreaches callbackCtx ?_⟩)
      rw [Unclaimed, setSleeping_field s curCtx ctx TaskCtx.bCompleted (fun _ => rfl),
        setSleeping_field s curCtx ctx TaskCtx.callback (fun _ => rfl)]
      exact horder ctx h.switchedTo
  | exitTask curCtx callback callbackCtx =>
      have heq := hcore.exitTask_eq hreaches callback callbackCtx
      obtain rfl := Option.some.inj (heq.symm.trans hstep)
      obtain ⟨hto, hclosed⟩ := horder
      obtain rfl := Option.some.inj (h.switchedTo.symm.trans hto)
      rw [h.loopStack] at hclosed
      have hlive := (hcore.running_task ctx hreaches).2.1
      have hcompleted := h.ledger.setCompleted hlive
        (fun frame hframe => hclosed frame (List.mem_cons_of_mem _ hframe))
      exact .inr (.inr ⟨ctx, opens, (hcore.setCompleted hreaches).arriving_self hreaches
        h.suspended hcompleted callback callbackCtx⟩)

theorem InTask.libraryStep (h : InTask s ctx opens) (hcore : Core default s)
    (hstep : libraryStep s = some s') : InTask s' ctx opens := by
  have hreturn (rest : List Frame) : InTask (s.returnTo rest) ctx opens :=
    ⟨h.running, h.suspended, h.live,
      h.ledger.congr rfl (fun _ => ⟨rfl, rfl⟩) rfl rfl h.ledger.requests_eq⟩
  rcases libraryStep_cases hstep with ⟨newCtx, rest, -, hcur, rfl⟩ |
    ⟨frame, rest, -, -, rfl⟩ | ⟨ctx', rest, hframes, rfl⟩
  · exact absurd (hcore.running_of_cur hcur) h.running
  · exact hreturn rest
  · -- the caller reads a field of its own context
    have hlive : (s.ctxs ctx').live = true := by
      cases howner : s.running with
      | loop => exact absurd howner h.running
      | task running =>
          obtain ⟨-, hlive, hown⟩ := hcore.running_task running howner
          rcases hframes with hframes | hframes
          · rw [hframes] at hown
            obtain rfl : ctx' = running := hown _ (List.mem_cons_self ..)
            exact hlive
          · rw [hframes] at hown
            obtain rfl : ctx' = running := hown _ (List.mem_cons_self ..)
            exact hlive
    rw [access_of_live hlive]
    exact hreturn rest

theorem Arriving.libraryStep (h : Arriving s ctx opens) (hcore : Core default s)
    (hstep : libraryStep s = some s') : ∃ opens', InLoop s' opens' := by
  have hcur : s.curTaskCtx = s.defaultCtx := by
    rw [hcore.cur_eq, hcore.default_eq, h.running]
    rfl
  rcases libraryStep_cases hstep with ⟨newCtx, rest, hframes, -, rfl⟩ |
    ⟨frame, rest, hframes, hframe, rfl⟩ | ⟨ctx', rest, hframes, rfl⟩
  · obtain ⟨heq, rfl⟩ := List.cons.inj (h.frames.symm.trans hframes)
    obtain rfl := Frame.afterSwap.inj heq
    exact h.ifCompletedTask
  · obtain ⟨rfl, -⟩ := List.cons.inj (h.frames.symm.trans hframes)
    rcases hframe with hframe | hframe
    · exact absurd hframe (by simp)
    · exact absurd hcur hframe
  · rw [h.frames] at hframes
    simp at hframes

theorem Accounted.step (h : Accounted s) (hcore : Core default s) {action : Action}
    (horder : Orderly s action) (hstep : step s action = some s') : Accounted s' := by
  cases action with
  | call call =>
      obtain ⟨hcontrol, hstep⟩ := step_control hstep
      rcases h with ⟨opens, h⟩ | ⟨ctx, opens, h⟩ | ⟨ctx, opens, h⟩
      · exact h.performCall hcore horder.1 hstep
      · exact h.performCall hcore horder.1 horder.2 hstep
      · exact absurd (h.control.symm.trans hcontrol) (by simp)
  | userReturn =>
      obtain ⟨hcontrol, hstep⟩ := step_control hstep
      rcases h with ⟨opens, h⟩ | ⟨ctx, opens, h⟩ | ⟨ctx, opens, h⟩
      · exact .inl (h.userReturn hstep)
      · rcases userReturn_cases hstep with ⟨_, rest, hframes, -⟩ | ⟨_, rest, hframes, -⟩
        · exact absurd (hcore.running_of_completion hframes (fun _ => id)) h.running
        · exact absurd (hcore.running_of_completion hframes (fun _ => id)) h.running
      · exact absurd (h.control.symm.trans hcontrol) (by simp)
  | library =>
      obtain ⟨hcontrol, hstep⟩ := step_control hstep
      rcases h with ⟨opens, h⟩ | ⟨ctx, opens, h⟩ | ⟨ctx, opens, h⟩
      · exact absurd (h.control.symm.trans hcontrol) (by simp)
      · exact .inr (.inl ⟨ctx, opens, h.libraryStep hcore hstep⟩)
      · exact .inl (h.libraryStep hcore hstep)

theorem initialised_accounted (onExit : Option Ptr) : Accounted (initialised onExit) := by
  have hgoing (ctx : Nat) : ((initialised onExit).ctxs ctx).bCompleted = false := by
    by_cases heq : ctx = 0
    · rw [heq]
      rfl
    · have hblank : (initialised onExit).ctxs ctx = .blank := Function.update_of_ne heq _ _
      rw [hblank]
      rfl
  refine .inl ⟨[], rfl, rfl, rfl, ?_⟩
  constructor
  · rfl
  · exact fun frame hframe => absurd hframe List.not_mem_nil
  · intro ctx hcompleted
    exact absurd ((hgoing ctx).symm.trans hcompleted) (by simp)
  · exact fun ctx hmem => absurd hmem List.not_mem_nil
  · intro ctx
    rw [hgoing]
    exact iff_of_false List.not_mem_nil (by simp)
  · exact List.nodup_nil
  · intro ctx
    rw [hgoing]
    exact iff_of_false List.not_mem_nil (by simp)
  · rfl

/-- An exited context was destroyed, unless the accounts still owe that. -/
theorem Ledger.exited (h : Ledger s opens none pending) (hexit : ctx ∈ s.exits) :
    ctx ∈ s.destroys ∨ ∃ frame ∈ opens, frame.completes ctx = true := by
  have hcompleted := (h.exits_iff ctx).mp hexit
  cases hlive : (s.ctxs ctx).live with
  | false => exact .inl ((h.destroys_iff ctx).mpr ⟨hcompleted, hlive⟩)
  | true =>
      have hcount := h.completed_open ctx hcompleted hlive
      rw [if_neg (by simp)] at hcount
      exact .inr (List.countP_pos_iff.mp (by omega))

theorem Ledger.destroyed (h : Ledger s opens due pending) :
    ∀ ctx ∈ s.destroys, ctx ∈ s.exits := by
  intro ctx hmem
  exact (h.exits_iff ctx).mpr ((h.destroys_iff ctx).mp hmem).1

theorem Ledger.ran_prefix (h : Ledger s opens due pending) :
    s.runs <+: s.requests.map Request.asRun :=
  ⟨pending, h.requests_eq.symm⟩

theorem Ledger.ran (h : Ledger s opens due []) : s.runs = s.requests.map Request.asRun := by
  rw [h.requests_eq, List.append_nil]

theorem Accounted.exactlyOnce (h : Accounted s) : ExactlyOnce s := by
  rcases h with ⟨opens, h⟩ | ⟨ctx, opens, h⟩ | ⟨ctx, opens, h⟩
  · have hstack : loopStack s = opens := by rw [loopStack, if_pos h.running, h.frames]
    refine ⟨h.ledger.accessed, h.ledger.destroys_nodup, h.ledger.destroyed, fun _ ctx hexit => ?_,
      h.ledger.ran_prefix, fun _ => h.ledger.ran⟩
    rw [hstack]
    exact h.ledger.exited hexit
  · refine ⟨h.ledger.accessed, h.ledger.destroys_nodup, h.ledger.destroyed, fun _ ctx' hexit => ?_,
      h.ledger.ran_prefix, fun _ => h.ledger.ran⟩
    rw [h.loopStack]
    rcases h.ledger.exited hexit with hmem | ⟨frame, hmem, hframe⟩
    · exact .inl hmem
    · exact .inr ⟨frame, List.mem_cons_of_mem _ hmem, hframe⟩
  · have hbusy (hcontrol : s.control = .user) : False :=
      absurd (h.control.symm.trans hcontrol) (by simp)
    exact ⟨h.ledger.accessed, h.ledger.destroys_nodup, h.ledger.destroyed,
      fun hcontrol => (hbusy hcontrol).elim, h.ledger.ran_prefix,
      fun hcontrol => (hbusy hcontrol).elim⟩

/-- In every run in which tasks come back to the loop in order, whatever the callbacks
start or resume, each callback runs once and each task that exits is destroyed once. -/
theorem callbacks_and_destruction_exactly_once (onExit : Option Ptr) (actions : List Action)
    (hguard : Runs.Guarded step Orderly (initialised onExit) actions)
    (hrun : Runs.run step (initialised onExit) actions = some s) : ExactlyOnce s := by
  have hkept (s : Scheduler) (action : Action) (s' : Scheduler) (hs : Core 0 s ∧ Accounted s)
      (horder : Orderly s action) (hstep : step s action = some s') :
      Core 0 s' ∧ Accounted s' := by
    refine ⟨hs.1.step ?_ hstep, hs.2.step hs.1 horder hstep⟩
    rintro call rfl
    exact horder.1
  have hend := Runs.guarded_run_invariant hkept
    ⟨initialised_core onExit, initialised_accounted onExit⟩ hguard hrun
  exact hend.2.exactlyOnce

/-- A callback resumes the task it runs for, which asks for another one; then the task
exits with a callback. -/
def resumingRun : List Action :=
  [.call .makeTask, .call (.startTask 1), .call (.callbackOnDefaultloop 1 (some 7) none),
    .library, .call (.schedTask 1), .library, .library,
    .call (.callbackOnDefaultloop 1 (some 8) (some 5)), .library, .userReturn, .userReturn,
    .call (.schedTask 1), .library, .library, .call (.exitTask 1 (some 9) none), .library,
    .userReturn]

theorem inOrder_of_self {callback callbackCtx : Option Ptr} (hto : switchedTo s = some ctx)
    (hgoing : (s.ctxs ctx).bCompleted = false) :
    InOrder s (.callbackOnDefaultloop ctx callback callbackCtx) := by
  intro other hother
  obtain rfl := Option.some.inj (hto.symm.trans hother)
  rw [if_pos rfl]
  exact hgoing

theorem resumingRun_exactly_once :
    ∃ s, Runs.run step (initialised none) resumingRun = some s ∧ ExactlyOnce s := by
  refine ⟨_, rfl, callbacks_and_destruction_exactly_once none resumingRun ?_ rfl⟩
  refine .cons ⟨trivial, trivial⟩ rfl (.cons ⟨fun _ => rfl, trivial⟩ rfl ?_)
  refine .cons ⟨rfl, inOrder_of_self rfl rfl⟩ rfl (.cons trivial rfl ?_)
  refine .cons ⟨fun _ => rfl, trivial⟩ rfl (.cons trivial rfl (.cons trivial rfl ?_))
  refine .cons ⟨rfl, inOrder_of_self rfl rfl⟩ rfl (.cons trivial rfl ?_)
  refine .cons trivial rfl (.cons trivial rfl (.cons ⟨fun _ => rfl, trivial⟩ rfl ?_))
  refine .cons trivial rfl (.cons trivial rfl (.cons ⟨rfl, rfl, ?_⟩ rfl ?_))
  · exact List.forall_mem_cons.mpr ⟨rfl, fun _ hmem => absurd hmem List.not_mem_nil⟩
  · exact .cons trivial rfl (.cons trivial rfl trivial)

/-- A callback resumes the task it runs for, which exits: the task is destroyed before
the callback returns, and again afterwards. -/
def exitingRun : List Action :=
  [.call .makeTask, .call (.startTask 1), .call (.callbackOnDefaultloop 1 (some 7) none),
    .library, .call (.schedTask 1), .library, .library, .call (.exitTask 1 none none),
    .library, .userReturn]

theorem exit_under_callback_destroys_twice :
    ∃ s, Runs.Guarded step OnLive (initialised none) exitingRun ∧
      Runs.run step (initialised none) exitingRun = some s ∧
      s.destroys = [1, 1] ∧ s.staleAccess = true ∧ ¬ ExactlyOnce s := by
  refine ⟨_, ?_, rfl, rfl, rfl, ?_⟩
  · refine .cons trivial rfl (.cons (fun _ => rfl) rfl (.cons rfl rfl (.cons trivial rfl ?_)))
    refine .cons (fun _ => rfl) rfl (.cons trivial rfl (.cons trivial rfl (.cons rfl rfl ?_)))
    exact .cons trivial rfl (.cons trivial rfl trivial)
  · intro honce
    have hstale : true = false := honce.accessed
    exact absurd hstale (by simp)

/-- The loop starts the first task, which switches to the second; that one exits with a
callback, and the loop checks the first. -/
def crossingRun : List Action :=
  [.call .makeTask, .call .makeTask, .call (.startTask 1), .call (.switch2task 1 2),
    .call (.exitTask 2 (some 7) none), .library]

example : (Runs.run step (initialised none) crossingRun).map
    (fun s => (s.control, s.runs, s.exits, s.destroys)) = some (.user, [], [2], []) := rfl

end EventLoop.Task
