import EventLoop.Task.Context

/-!
Who owns the scheduler: `cur_task_ctx` names the context whose code is executing,
and every other live context holds the place where its own stack was last left.
Both are kept by every call whose target is live, whatever the order of the switches.
-/

namespace EventLoop.Task

/-- The context that stands for an owner, and the owner a context stands for. -/
def ident (default : Nat) : Owner → Nat
  | .loop => default
  | .task ctx => ctx

def ownerOf (default ctx : Nat) : Owner := if ctx = default then .loop else .task ctx

/-- The calls that can be open on the stack of the task `ctx`. -/
def Frame.OnTask (ctx : Nat) : Frame → Prop
  | .afterSwap _ | .exiting => True
  | .callbackOn ctx' | .sleeping ctx' => ctx' = ctx
  | .ifCompletedCallback _ | .ifCompletedExit _ => False

def OwnFrames (ctx : Nat) (frames : List Frame) : Prop := ∀ frame ∈ frames, frame.OnTask ctx

/-- A task that is not executing holds its entry, or the place it was last left at. -/
def SavedAt (s : Scheduler) (ctx : Nat) : Prop :=
  (s.suspended (.task ctx) = none ∧ (s.ctxs ctx).taskUc = .entry) ∨
    ∃ frames, s.suspended (.task ctx) = some frames ∧
      (s.ctxs ctx).taskUc = .at (.task ctx) frames ∧ OwnFrames ctx frames

/-- The stack of the loop, executing or left. -/
def loopStack (s : Scheduler) : List Frame :=
  if s.running = .loop then s.frames else (s.suspended .loop).getD []

structure Core (default : Nat) (s : Scheduler) : Prop where
  default_eq : s.defaultCtx = some default
  cur_eq : s.curTaskCtx = some (ident default s.running)
  default_live : (s.ctxs default).live = true
  default_idle : (s.ctxs default).bCompleted = false ∧ (s.ctxs default).callback = none
  running_task : ∀ ctx, s.running = .task ctx →
    ctx ≠ default ∧ (s.ctxs ctx).live = true ∧ OwnFrames ctx s.frames
  loop_saved : s.running ≠ .loop → ∃ frames,
    s.suspended .loop = some frames ∧ (s.ctxs default).taskUc = .at .loop frames
  task_saved : ∀ ctx, ctx ≠ default → (s.ctxs ctx).live = true → s.running ≠ .task ctx →
    SavedAt s ctx
  blank : ∀ ctx, s.made ≤ ctx → s.ctxs ctx = .blank ∧ s.suspended (.task ctx) = none
  exit_task : ∀ ctx, .ifCompletedExit ctx ∈ loopStack s → ctx ≠ default

/-- The place a switch to `newCtx` goes on at. -/
def target (default : Nat) (s : Scheduler) (newCtx : Nat) : List Frame × Control :=
  if ownerOf default newCtx = s.running then (.afterSwap newCtx :: s.frames, .library)
  else match s.suspended (ownerOf default newCtx) with
    | none => ([], .user)
    | some frames => (frames, .library)

/-- The executing stack saved by a switch to `newCtx`. -/
def left (default : Nat) (s : Scheduler) (newCtx : Nat) : Scheduler :=
  saveContext { s with curTaskCtx := some newCtx, frames := .afterSwap newCtx :: s.frames }
    (ident default s.running)

/-- The state behind a switch from the executing context to `newCtx`. -/
def switched (default : Nat) (s : Scheduler) (newCtx : Nat) : Scheduler :=
  { left default s newCtx with
    running := ownerOf default newCtx
    frames := (target default s newCtx).1
    control := (target default s newCtx).2 }

variable {default : Nat} {s s' : Scheduler}

@[simp] theorem ident_ownerOf (default ctx : Nat) : ident default (ownerOf default ctx) = ctx := by
  rw [ownerOf]
  split
  · rename_i heq
    exact heq.symm
  · rfl

theorem Core.ident_live (h : Core default s) : (s.ctxs (ident default s.running)).live = true := by
  cases howner : s.running with
  | loop => exact h.default_live
  | task ctx => exact (h.running_task ctx howner).2.1

theorem Core.ownerOf_ident (h : Core default s) :
    ownerOf default (ident default s.running) = s.running := by
  cases howner : s.running with
  | loop => exact if_pos rfl
  | task ctx => exact if_neg (h.running_task ctx howner).1

/-- Where nothing but the record and the frames of the executing stack differ. -/
theorem Core.congr (h : Core default s) (hctxs : s'.ctxs = s.ctxs) (hmade : s'.made = s.made)
    (hdefault : s'.defaultCtx = s.defaultCtx) (hcur : s'.curTaskCtx = s.curTaskCtx)
    (hrunning : s'.running = s.running) (hsuspended : s'.suspended = s.suspended)
    (hframes : ∀ ctx, s.running = .task ctx → OwnFrames ctx s'.frames)
    (hexit : s.running = .loop → ∀ ctx, .ifCompletedExit ctx ∈ s'.frames → ctx ≠ default) :
    Core default s' where
  default_eq := by rw [hdefault, h.default_eq]
  cur_eq := by rw [hcur, hrunning, h.cur_eq]
  default_live := by rw [hctxs, h.default_live]
  default_idle := by rw [hctxs]; exact h.default_idle
  running_task := by
    intro ctx howner
    rw [hrunning] at howner
    rw [hctxs]
    obtain ⟨hne, hlive, -⟩ := h.running_task ctx howner
    exact ⟨hne, hlive, hframes ctx howner⟩
  loop_saved := by
    rw [hrunning, hsuspended, hctxs]
    exact h.loop_saved
  task_saved := by
    rw [hrunning, hctxs]
    intro ctx hne hlive howner
    rw [SavedAt, hsuspended, hctxs]
    exact h.task_saved ctx hne hlive howner
  blank := by
    rw [hmade, hctxs, hsuspended]
    exact h.blank
  exit_task := by
    have hold := h.exit_task
    rw [loopStack] at hold ⊢
    rw [hrunning, hsuspended]
    split
    · exact hexit ‹_›
    · rename_i hother
      rw [if_neg hother] at hold
      exact hold

/-- A modification that keeps a field of its context keeps it of all. -/
theorem modify_field {β : Type} (field : TaskCtx → β) (s : Scheduler) (ctx : Nat)
    (f : TaskCtx → TaskCtx) (hfield : ∀ c, field (f c) = field c) (c : Nat) :
    field ((s.modify ctx f).ctxs c) = field (s.ctxs c) := by
  by_cases heq : c = ctx
  · subst heq
    have hself : (s.modify c f).ctxs c = f (s.ctxs c) := Function.update_self _ _ _
    rw [hself, hfield]
  · have hother : (s.modify ctx f).ctxs c = s.ctxs c := Function.update_of_ne heq _ _
    rw [hother]

/-- A field of a context other than its saved place; the default context stays idle. -/
theorem Core.modify (h : Core default s) (ctx : Nat) (f : TaskCtx → TaskCtx)
    (huc : ∀ c, (f c).taskUc = c.taskUc) (hlive : ∀ c, (f c).live = c.live)
    (hidle : ctx = default → (f (s.ctxs default)).bCompleted = false ∧
      (f (s.ctxs default)).callback = none)
    (hblank : s.made ≤ ctx → f .blank = .blank) : Core default (s.modify ctx f) := by
  have hctx (c : Nat) : ((s.modify ctx f).ctxs c).taskUc = (s.ctxs c).taskUc ∧
      ((s.modify ctx f).ctxs c).live = (s.ctxs c).live :=
    ⟨modify_field TaskCtx.taskUc s ctx f huc c, modify_field TaskCtx.live s ctx f hlive c⟩
  constructor
  · exact h.default_eq
  · exact h.cur_eq
  · rw [(hctx default).2, h.default_live]
  · by_cases heq : default = ctx
    · have hself : (s.modify ctx f).ctxs default = f (s.ctxs default) := by
        rw [heq]
        exact Function.update_self _ _ _
      rw [hself]
      exact hidle heq.symm
    · have hother : (s.modify ctx f).ctxs default = s.ctxs default := Function.update_of_ne heq _ _
      rw [hother]
      exact h.default_idle
  · intro c howner
    rw [(hctx c).2]
    exact h.running_task c howner
  · rw [(hctx default).1]
    exact h.loop_saved
  · intro c hc hlive' howner
    rw [(hctx c).2] at hlive'
    rw [SavedAt, (hctx c).1]
    exact h.task_saved c hc hlive' howner
  · intro c hc
    obtain ⟨hold, hsuspended⟩ := h.blank c hc
    refine ⟨?_, hsuspended⟩
    by_cases heq : c = ctx
    · subst heq
      have hself : (s.modify c f).ctxs c = f (s.ctxs c) := Function.update_self _ _ _
      rw [hself, hold, hblank hc]
    · exact (Function.update_of_ne heq _ _).trans hold
  · exact h.exit_task

/-- A live context was made. -/
theorem Core.lt_made (h : Core default s) {ctx : Nat} (hlive : (s.ctxs ctx).live = true) :
    ctx < s.made := by
  apply Classical.byContradiction
  intro hnot
  rw [(h.blank ctx (Nat.le_of_not_lt hnot)).1] at hlive
  exact absurd hlive (by simp [TaskCtx.blank])

@[simp] theorem access_of_live {ctx : Nat} (hlive : (s.ctxs ctx).live = true) :
    s.access ctx = s := by
  rw [Scheduler.access, hlive, Bool.not_true, Bool.or_false]

theorem staleAccess_of_live {ctx : Nat} (hlive : (s.ctxs ctx).live = true) :
    (s.access ctx).staleAccess = s.staleAccess := by
  rw [access_of_live hlive]

theorem left_ctxs_self (default : Nat) (s : Scheduler) (newCtx : Nat) :
    (left default s newCtx).ctxs (ident default s.running) =
      { s.ctxs (ident default s.running) with
        taskUc := .at s.running (.afterSwap newCtx :: s.frames) } :=
  Function.update_self _ _ _

theorem left_ctxs_of_ne (newCtx : Nat) {ctx : Nat} (h : ctx ≠ ident default s.running) :
    (left default s newCtx).ctxs ctx = s.ctxs ctx :=
  Function.update_of_ne h _ _

/-- Saving changes nothing of a context but the saved place. -/
theorem left_fields (default : Nat) (s : Scheduler) (newCtx ctx : Nat) :
    ((left default s newCtx).ctxs ctx).live = (s.ctxs ctx).live ∧
      ((left default s newCtx).ctxs ctx).bCompleted = (s.ctxs ctx).bCompleted ∧
      ((left default s newCtx).ctxs ctx).callback = (s.ctxs ctx).callback ∧
      ((left default s newCtx).ctxs ctx).callbackCtx = (s.ctxs ctx).callbackCtx := by
  by_cases heq : ctx = ident default s.running
  · subst heq
    rw [left_ctxs_self]
    exact ⟨rfl, rfl, rfl, rfl⟩
  · rw [left_ctxs_of_ne newCtx heq]
    exact ⟨rfl, rfl, rfl, rfl⟩

theorem left_suspended_self (default : Nat) (s : Scheduler) (newCtx : Nat) :
    (left default s newCtx).suspended s.running = some (.afterSwap newCtx :: s.frames) :=
  Function.update_self _ _ _

theorem left_suspended_of_ne (default newCtx : Nat) {owner : Owner} (h : owner ≠ s.running) :
    (left default s newCtx).suspended owner = s.suspended owner :=
  Function.update_of_ne h _ _

theorem Core.left_staleAccess (h : Core default s) (newCtx : Nat) :
    (left default s newCtx).staleAccess = s.staleAccess := by
  change (s.staleAccess || !(s.ctxs (ident default s.running)).live) = s.staleAccess
  rw [h.ident_live, Bool.not_true, Bool.or_false]

/-- What the new context holds when the old one has been saved. -/
theorem Core.target_point (h : Core default s) {newCtx : Nat}
    (hnew : (s.ctxs newCtx).live = true) :
    (((left default s newCtx).ctxs newCtx).taskUc = .entry ∧
        ownerOf default newCtx = .task newCtx ∧ target default s newCtx = ([], .user)) ∨
      ∃ frames, ((left default s newCtx).ctxs newCtx).taskUc =
          .at (ownerOf default newCtx) frames ∧
        target default s newCtx = (frames, .library) := by
  by_cases hself : newCtx = ident default s.running
  · -- the context has just been saved itself
    have howner : ownerOf default newCtx = s.running := by rw [hself, h.ownerOf_ident]
    refine .inr ⟨.afterSwap newCtx :: s.frames, ?_, ?_⟩
    · have hsaved := congrArg TaskCtx.taskUc (left_ctxs_self default s newCtx)
      rw [← hself] at hsaved
      rw [hsaved, howner]
    · rw [target, if_pos howner]
  · have hother : ownerOf default newCtx ≠ s.running := by
      intro heq
      apply hself
      rw [← ident_ownerOf default newCtx, heq]
    rw [left_ctxs_of_ne newCtx hself, target, if_neg hother]
    by_cases hdefault : newCtx = default
    · subst hdefault
      have howner : ownerOf newCtx newCtx = .loop := if_pos rfl
      rw [howner] at hother ⊢
      obtain ⟨frames, hsuspended, hsaved⟩ := h.loop_saved hother.symm
      exact .inr ⟨frames, hsaved, by rw [hsuspended]⟩
    · have howner : ownerOf default newCtx = .task newCtx := if_neg hdefault
      rw [howner] at hother ⊢
      rcases h.task_saved newCtx hdefault hnew hother.symm with
        ⟨hsuspended, hsaved⟩ | ⟨frames, hsuspended, hsaved, -⟩
      · exact .inl ⟨hsaved, rfl, by rw [hsuspended]⟩
      · exact .inr ⟨frames, hsaved, by rw [hsuspended]⟩

theorem swapcontext_entry {curCtx newCtx : Nat}
    (hlive : ((saveContext s curCtx).ctxs newCtx).live = true)
    (huc : ((saveContext s curCtx).ctxs newCtx).taskUc = .entry) :
    swapcontext s curCtx newCtx = some
      { saveContext s curCtx with running := .task newCtx, frames := [], control := .user } := by
  rw [swapcontext, access_of_live hlive, huc]

theorem swapcontext_at {curCtx newCtx : Nat} {owner : Owner} {frames : List Frame}
    (hlive : ((saveContext s curCtx).ctxs newCtx).live = true)
    (huc : ((saveContext s curCtx).ctxs newCtx).taskUc = .at owner frames) :
    swapcontext s curCtx newCtx = some
      { saveContext s curCtx with running := owner, frames := frames, control := .library } := by
  rw [swapcontext, access_of_live hlive, huc]

/-- A switch from the executing context to a live one is not dropped, and goes on where
the new context was left. -/
theorem Core.switch2task_eq (h : Core default s) {newCtx : Nat}
    (hnew : (s.ctxs newCtx).live = true) :
    switch2task s (ident default s.running) newCtx = some (switched default s newCtx) := by
  have hlive : ((left default s newCtx).ctxs newCtx).live = true := by
    rw [(left_fields default s newCtx newCtx).1, hnew]
  rw [switch2task, if_pos h.cur_eq]
  rcases h.target_point hnew with ⟨huc, howner, htarget⟩ | ⟨frames, huc, htarget⟩
  · rw [swapcontext_entry hlive huc, switched, howner, htarget]
    rfl
  · rw [swapcontext_at hlive huc, switched, htarget]
    rfl

theorem ownFrames_cons {ctx : Nat} {frame : Frame} {frames : List Frame}
    (hframe : frame.OnTask ctx) (hframes : OwnFrames ctx frames) :
    OwnFrames ctx (frame :: frames) :=
  List.forall_mem_cons.mpr ⟨hframe, hframes⟩

/-- A task other than the executing one stands for itself. -/
theorem ident_ne_of_ne {ctx : Nat} (hne : ctx ≠ default) (hrunning : s.running ≠ .task ctx) :
    ctx ≠ ident default s.running := by
  intro heq
  cases howner : s.running with
  | loop => exact hne (by rw [heq, howner]; rfl)
  | task other => exact hrunning (by rw [howner, heq, howner]; rfl)

theorem Core.target_own (h : Core default s) {newCtx ctx : Nat}
    (hlive : (s.ctxs ctx).live = true) (howner : ownerOf default newCtx = .task ctx)
    (hne : ctx ≠ default) : OwnFrames ctx (target default s newCtx).1 := by
  rw [target, howner]
  split
  · rename_i hself
    exact ownFrames_cons trivial (h.running_task ctx hself.symm).2.2
  · rename_i hother
    rcases h.task_saved ctx hne hlive (Ne.symm hother) with
      ⟨hsuspended, -⟩ | ⟨frames, hsuspended, -, hown⟩
    · rw [hsuspended]
      exact fun frame hframe => absurd hframe (List.not_mem_nil)
    · rw [hsuspended]
      exact hown

/-- Leaving the loop puts the switch on its stack; the other switches leave it alone. -/
theorem Core.loopStack_switched (h : Core default s) (newCtx : Nat) :
    loopStack (switched default s newCtx) =
      if s.running = .loop then .afterSwap newCtx :: s.frames else loopStack s := by
  change (if ownerOf default newCtx = .loop then (target default s newCtx).1
    else ((left default s newCtx).suspended .loop).getD []) = _
  by_cases hloop : s.running = .loop
  · rw [if_pos hloop]
    split
    · rename_i howner
      rw [target, if_pos (howner.trans hloop.symm)]
    · have hsuspended := left_suspended_self default s newCtx
      rw [hloop] at hsuspended
      rw [hsuspended]
      rfl
  · have hother : Owner.loop ≠ s.running := Ne.symm hloop
    rw [if_neg hloop, loopStack, if_neg hloop]
    obtain ⟨frames, hsuspended, -⟩ := h.loop_saved hloop
    split
    · rename_i howner
      rw [target, if_neg (by rw [howner]; exact hother), howner, hsuspended]
      rfl
    · rw [left_suspended_of_ne default newCtx hother]

theorem Core.switched (h : Core default s) {newCtx : Nat}
    (hnew : (s.ctxs newCtx).live = true) : Core default (switched default s newCtx) := by
  have hfields := left_fields default s newCtx
  constructor
  · exact h.default_eq
  · change some newCtx = some (ident default (ownerOf default newCtx))
    rw [ident_ownerOf]
  · exact (hfields default).1.trans h.default_live
  · exact ⟨(hfields default).2.1.trans h.default_idle.1,
      (hfields default).2.2.1.trans h.default_idle.2⟩
  · intro ctx howner
    change ownerOf default newCtx = .task ctx at howner
    obtain rfl : newCtx = ctx := by
      rw [← ident_ownerOf default newCtx, howner]
      rfl
    have hne : newCtx ≠ default := by
      intro heq
      rw [ownerOf, if_pos heq] at howner
      exact absurd howner (by simp)
    exact ⟨hne, (hfields newCtx).1.trans hnew, h.target_own hnew howner hne⟩
  · intro _
    cases howner : s.running with
    | loop =>
        have hsuspended := left_suspended_self default s newCtx
        have hsaved := congrArg TaskCtx.taskUc (left_ctxs_self default s newCtx)
        rw [howner] at hsuspended hsaved
        exact ⟨_, hsuspended, hsaved⟩
    | task ctx =>
        have hother : Owner.loop ≠ s.running := by simp [howner]
        obtain ⟨frames, hsuspended, hsaved⟩ := h.loop_saved hother.symm
        have hne : default ≠ ident default s.running := by
          rw [howner]
          exact (h.running_task ctx howner).1.symm
        exact ⟨frames, (left_suspended_of_ne default newCtx hother).trans hsuspended,
          (congrArg TaskCtx.taskUc (left_ctxs_of_ne newCtx hne)).trans hsaved⟩
  · intro ctx hne hlive _
    by_cases hrunning : s.running = .task ctx
    · have hsuspended := left_suspended_self default s newCtx
      have hsaved := congrArg TaskCtx.taskUc (left_ctxs_self default s newCtx)
      rw [hrunning] at hsuspended hsaved
      exact .inr ⟨_, hsuspended, hsaved,
        ownFrames_cons trivial (h.running_task ctx hrunning).2.2⟩
    · have hctx := left_ctxs_of_ne newCtx (ident_ne_of_ne hne hrunning)
      have hold := h.task_saved ctx hne ((hfields ctx).1.symm.trans hlive) hrunning
      rw [SavedAt, ← left_suspended_of_ne default newCtx (Ne.symm hrunning), ← hctx] at hold
      exact hold
  · intro ctx hctx
    obtain ⟨hblank, hsuspended⟩ := h.blank ctx hctx
    have hne : ctx ≠ ident default s.running := by
      intro heq
      have hlt := h.lt_made h.ident_live
      rw [← heq] at hlt
      exact absurd hctx (Nat.not_le_of_lt hlt)
    have hother : Owner.task ctx ≠ s.running := by
      intro heq
      rw [← heq] at hne
      exact hne rfl
    exact ⟨(left_ctxs_of_ne newCtx hne).trans hblank,
      (left_suspended_of_ne default newCtx hother).trans hsuspended⟩
  · intro ctx hmem
    rw [h.loopStack_switched] at hmem
    split at hmem
    · rename_i hloop
      have hold := h.exit_task ctx
      rw [loopStack, if_pos hloop] at hold
      rcases List.mem_cons.mp hmem with heq | htail
      · exact absurd heq (by simp)
      · exact hold htail
    · exact h.exit_task ctx hmem

/-- What `switch2task` comes to when its guard fails. -/
def droppedSwitch (s : Scheduler) : Scheduler :=
  { s with dropped := s.dropped + 1 }.returnTo s.frames

theorem Core.droppedSwitch (h : Core default s) : Core default (droppedSwitch s) :=
  h.congr rfl rfl rfl rfl rfl rfl (fun ctx howner => (h.running_task ctx howner).2.2)
    (fun hloop ctx hmem => h.exit_task ctx (by rw [loopStack, if_pos hloop]; exact hmem))

theorem Core.makeTask (h : Core default s) : Core default (makeTask s .entry) := by
  have hold {ctx : Nat} (hlt : ctx < s.made) : (Task.makeTask s .entry).ctxs ctx = s.ctxs ctx :=
    Function.update_of_ne (Nat.ne_of_lt hlt) _ _
  have hnew : (Task.makeTask s .entry).ctxs s.made = .fresh .entry := Function.update_self _ _ _
  have hdefault := hold (h.lt_made h.default_live)
  constructor
  · exact h.default_eq
  · exact h.cur_eq
  · rw [hdefault, h.default_live]
  · rw [hdefault]
    exact h.default_idle
  · intro ctx howner
    obtain ⟨hne, hlive, hown⟩ := h.running_task ctx howner
    rw [hold (h.lt_made hlive)]
    exact ⟨hne, hlive, hown⟩
  · rw [hdefault]
    exact h.loop_saved
  · intro ctx hne hlive howner
    rcases Nat.lt_trichotomy ctx s.made with hlt | rfl | hgt
    · rw [hold hlt] at hlive
      rw [SavedAt, hold hlt]
      exact h.task_saved ctx hne hlive howner
    · exact .inl ⟨(h.blank s.made (Nat.le_refl _)).2, by rw [hnew]; rfl⟩
    · have hblank := (h.blank ctx (Nat.le_of_lt hgt)).1
      have hsame : (Task.makeTask s .entry).ctxs ctx = s.ctxs ctx :=
        Function.update_of_ne (Nat.ne_of_gt hgt) _ _
      rw [hsame, hblank] at hlive
      exact absurd hlive (by simp [TaskCtx.blank])
  · intro ctx hctx
    have hgt : s.made < ctx := hctx
    obtain ⟨hblank, hsuspended⟩ := h.blank ctx (Nat.le_of_lt hgt)
    exact ⟨(Function.update_of_ne (Nat.ne_of_gt hgt) _ _).trans hblank, hsuspended⟩
  · exact h.exit_task

theorem Core.makeDefaultTask (h : Core default s) : makeDefaultTask s = s := by
  rw [Task.makeDefaultTask, h.default_eq]

theorem Core.switch2task_cases (h : Core default s) {curCtx newCtx : Nat}
    (hnew : ident default s.running = curCtx → (s.ctxs newCtx).live = true) :
    switch2task s curCtx newCtx = some (if ident default s.running = curCtx
      then Task.switched default s newCtx else Task.droppedSwitch s) := by
  by_cases heq : ident default s.running = curCtx
  · rw [if_pos heq, ← heq]
    exact h.switch2task_eq (hnew heq)
  · rw [if_neg heq, switch2task, if_neg]
    · rfl
    · rw [h.cur_eq]
      exact fun hcur => heq (Option.some.inj hcur)

theorem Core.ident_eq_default (h : Core default s) :
    ident default s.running = default ↔ s.running = .loop := by
  cases howner : s.running with
  | loop => exact iff_of_true rfl rfl
  | task ctx => exact iff_of_false (h.running_task ctx howner).1 (by simp)

/-- Called by loop code a task is resumed; called by a task the switch is dropped. -/
theorem Core.schedTask_eq (h : Core default s) {ctx : Nat}
    (hlive : s.running = .loop → (s.ctxs ctx).live = true) :
    schedTask s ctx = some (if s.running = .loop then Task.switched default s ctx
      else Task.droppedSwitch s) := by
  rw [schedTask, h.default_eq]
  change switch2task s default ctx = _
  rw [h.switch2task_cases (fun heq => hlive (h.ident_eq_default.mp heq))]
  simp only [h.ident_eq_default]

theorem Core.schedDefaultloop_eq (h : Core default s) (ctx : Nat) :
    schedDefaultloop s ctx = some (if ident default s.running = ctx
      then Task.switched default s default else Task.droppedSwitch s) := by
  rw [schedDefaultloop, h.default_eq]
  exact h.switch2task_cases (fun _ => h.default_live)

/-- A running task writes a field of its own and opens a library call. -/
theorem Core.push (h : Core default s) {ctx : Nat} (howner : s.running = .task ctx)
    (f : TaskCtx → TaskCtx) (huc : ∀ c, (f c).taskUc = c.taskUc)
    (hlive : ∀ c, (f c).live = c.live) (frame : Frame) (hframe : frame.OnTask ctx)
    (hctxs : s'.ctxs = (s.modify ctx f).ctxs) (hmade : s'.made = s.made)
    (hdefault : s'.defaultCtx = s.defaultCtx) (hcur : s'.curTaskCtx = s.curTaskCtx)
    (hrunning : s'.running = s.running) (hsuspended : s'.suspended = s.suspended)
    (hframes : s'.frames = frame :: s.frames) : Core default s' := by
  obtain ⟨hne, hctx, hown⟩ := h.running_task ctx howner
  apply (h.modify ctx f huc hlive (fun heq => absurd heq hne)
    (fun hmade => absurd (h.lt_made hctx) (Nat.not_lt_of_le hmade))).congr hctxs hmade hdefault
    hcur hrunning hsuspended
  · intro ctx' howner'
    obtain rfl : ctx = ctx' := Owner.task.inj (howner.symm.trans howner')
    rw [hframes]
    exact ownFrames_cons hframe hown
  · exact fun hloop => absurd (hloop.symm.trans howner) (by simp)

theorem Core.setCallback (h : Core default s) {ctx : Nat} (howner : s.running = .task ctx)
    (callback callbackCtx : Option Ptr) :
    Core default (setCallback s ctx callback callbackCtx) :=
  h.push howner (fun c => { c with
    callbackCtx := some ((callbackCtx.map .given).getD (.self ctx)), callback })
    (fun _ => rfl) (fun _ => rfl) (.callbackOn ctx) rfl rfl rfl rfl rfl rfl rfl rfl

theorem Core.setCompleted (h : Core default s) {ctx : Nat} (howner : s.running = .task ctx) :
    Core default (setCompleted s ctx) :=
  h.push howner (fun c => { c with bCompleted := true })
    (fun _ => rfl) (fun _ => rfl) .exiting trivial rfl rfl rfl rfl rfl rfl rfl

theorem Core.setSleeping (h : Core default s) {ctx : Nat} (howner : s.running = .task ctx) :
    Core default (setSleeping s ctx) :=
  h.push howner (fun c => { c with bIsTimeout := -1 })
    (fun _ => rfl) (fun _ => rfl) (.sleeping ctx) rfl rfl rfl rfl rfl rfl rfl rfl

/-- A running task that calls on itself goes to the loop. -/
theorem Core.callbackOnDefaultloop_eq (h : Core default s) {ctx : Nat}
    (howner : s.running = .task ctx) (callback callbackCtx : Option Ptr) :
    callbackOnDefaultloop s ctx callback callbackCtx =
      some (Task.switched default (Task.setCallback s ctx callback callbackCtx) default) := by
  rw [callbackOnDefaultloop, (h.setCallback howner callback callbackCtx).schedDefaultloop_eq,
    if_pos]
  exact congrArg (ident default) howner

theorem Core.exitTask_eq (h : Core default s) {ctx : Nat} (howner : s.running = .task ctx)
    (callback callbackCtx : Option Ptr) :
    exitTask s ctx callback callbackCtx = some (Task.switched default
      (Task.setCallback (Task.setCompleted s ctx) ctx callback callbackCtx) default) :=
  (h.setCompleted howner).callbackOnDefaultloop_eq howner callback callbackCtx

theorem Core.sleepTaskOnDefaultloop_eq (h : Core default s) {ctx : Nat}
    (howner : s.running = .task ctx) (callback callbackCtx : Option Ptr) :
    sleepTaskOnDefaultloop s ctx callback callbackCtx = some (Task.switched default
      (Task.setCallback (Task.setSleeping s ctx) ctx callback callbackCtx) default) :=
  (h.setSleeping howner).callbackOnDefaultloop_eq howner callback callbackCtx

/-- `defaultloop_handler_for_task` up to `sched_task`. -/
def handled (s : Scheduler) (ctx : Nat) (userData : Ptr) (bTimeout : Bool) : Scheduler :=
  s.modify ctx (fun c => { c with bIsTimeout := timeoutValue userData bTimeout })

theorem Core.handled (h : Core default s) {ctx : Nat} (hlive : (s.ctxs ctx).live = true)
    (userData : Ptr) (bTimeout : Bool) : Core default (handled s ctx userData bTimeout) := by
  apply h.modify
  · exact fun _ => rfl
  · exact fun _ => rfl
  · exact fun _ => h.default_idle
  · exact fun hmade => absurd (h.lt_made hlive) (Nat.not_lt_of_le hmade)

theorem handled_live (s : Scheduler) (ctx : Nat) (userData : Ptr) (bTimeout : Bool) (c : Nat) :
    ((handled s ctx userData bTimeout).ctxs c).live = (s.ctxs c).live := by
  rw [Task.handled, modify_field TaskCtx.live]
  exact fun _ => rfl

theorem Core.defaultloopHandlerForTask_eq (h : Core default s) {ctx : Nat}
    (hlive : (s.ctxs ctx).live = true) (userData : Ptr) (bTimeout : Bool) :
    defaultloopHandlerForTask s ctx userData bTimeout = some (if s.running = .loop
      then Task.switched default (Task.handled s ctx userData bTimeout) ctx
      else Task.droppedSwitch (Task.handled s ctx userData bTimeout)) := by
  rw [defaultloopHandlerForTask, h.makeDefaultTask]
  exact (h.handled hlive userData bTimeout).schedTask_eq
    (fun _ => (handled_live s ctx userData bTimeout ctx).trans hlive)

theorem Core.destroyTask (h : Core default s) (hloop : s.running = .loop) {ctx : Nat}
    (hne : ctx ≠ default) : Core default (destroyTask s ctx) := by
  have hother {c : Nat} (hc : c ≠ ctx) : (Task.destroyTask s ctx).ctxs c = s.ctxs c :=
    Function.update_of_ne hc _ _
  have hself : (Task.destroyTask s ctx).ctxs ctx = { s.ctxs ctx with live := false } :=
    Function.update_self _ _ _
  constructor
  · exact h.default_eq
  · exact h.cur_eq
  · rw [hother hne.symm, h.default_live]
  · rw [hother hne.symm]
    exact h.default_idle
  · intro c howner
    exact absurd (hloop.symm.trans howner) (by simp)
  · exact fun hrunning => absurd hloop hrunning
  · intro c hc hlive howner
    by_cases heq : c = ctx
    · rw [heq, hself] at hlive
      exact absurd hlive (by simp)
    · rw [hother heq] at hlive
      rw [SavedAt, hother heq]
      exact h.task_saved c hc hlive howner
  · intro c hc
    obtain ⟨hblank, hsuspended⟩ := h.blank c hc
    refine ⟨?_, hsuspended⟩
    by_cases heq : c = ctx
    · rw [heq] at hblank ⊢
      rw [hself, hblank]
      rfl
    · rw [hother heq, hblank]
  · exact h.exit_task

/-- On the loop's stack the frames are free, but for the exit hook of the default context. -/
theorem Core.on_loop (h : Core default s) (hloop : s.running = .loop)
    (hctxs : s'.ctxs = s.ctxs) (hmade : s'.made = s.made) (hdefault : s'.defaultCtx = s.defaultCtx)
    (hcur : s'.curTaskCtx = s.curTaskCtx) (hrunning : s'.running = s.running)
    (hsuspended : s'.suspended = s.suspended)
    (hexit : ∀ ctx, .ifCompletedExit ctx ∈ s'.frames → ctx ≠ default) : Core default s' :=
  h.congr hctxs hmade hdefault hcur hrunning hsuspended
    (fun _ howner => absurd (hloop.symm.trans howner) (by simp)) (fun _ => hexit)

theorem Core.completedCheck (h : Core default s) (hloop : s.running = .loop) (ctx : Nat)
    (hasExitCallback : Bool) {rest : List Frame}
    (hrest : ∀ ctx, .ifCompletedExit ctx ∈ rest → ctx ≠ default) :
    Core default (completedCheck s ctx hasExitCallback rest) := by
  rw [Task.completedCheck]
  split
  · rename_i hcompleted
    have hne : ctx ≠ default := by
      intro heq
      have hidle : (s.ctxs ctx).bCompleted = false := by rw [heq, h.default_idle.1]
      exact absurd (hidle.symm.trans hcompleted) (by simp)
    split
    · refine h.on_loop hloop rfl rfl rfl rfl rfl rfl ?_
      intro ctx' hmem
      rcases List.mem_cons.mp hmem with heq | htail
      · obtain rfl := Frame.ifCompletedExit.inj heq
        exact hne
      · exact hrest ctx' htail
    · exact (h.destroyTask hloop hne).on_loop hloop rfl rfl rfl rfl rfl rfl hrest
  · exact h.on_loop hloop rfl rfl rfl rfl rfl rfl hrest

theorem Core.ifCompletedTask (h : Core default s) (hloop : s.running = .loop) (ctx : Nat)
    {rest : List Frame} (hrest : ∀ ctx, .ifCompletedExit ctx ∈ rest → ctx ≠ default) :
    Core default (ifCompletedTask s ctx rest) := by
  have hstack := h.exit_task
  rw [loopStack, if_pos hloop] at hstack
  have haccess : Core default (s.access ctx) := h.on_loop hloop rfl rfl rfl rfl rfl rfl hstack
  rw [Task.ifCompletedTask]
  split
  · refine h.on_loop hloop rfl rfl rfl rfl rfl rfl ?_
    intro ctx' hmem
    rcases List.mem_cons.mp hmem with heq | htail
    · exact absurd heq (by simp)
    · exact hrest ctx' htail
  · exact haccess.completedCheck hloop ctx false hrest

/-- The innermost call at work: the check behind a switch to the loop, the return from
another switch or from `exit_task`, or a field of the caller's own context. -/
theorem libraryStep_cases (hstep : libraryStep s = some s') :
    (∃ newCtx rest, s.frames = .afterSwap newCtx :: rest ∧ s.curTaskCtx = s.defaultCtx ∧
      s' = ifCompletedTask s newCtx rest) ∨
    (∃ frame rest, s.frames = frame :: rest ∧
      (frame = .exiting ∨ s.curTaskCtx ≠ s.defaultCtx) ∧ s' = s.returnTo rest) ∨
    ∃ ctx rest, (s.frames = .callbackOn ctx :: rest ∨ s.frames = .sleeping ctx :: rest) ∧
      s' = (s.access ctx).returnTo rest := by
  cases hframes : s.frames with
  | nil => simp [libraryStep, hframes] at hstep
  | cons frame rest =>
      cases frame with
      | afterSwap newCtx =>
          simp only [libraryStep, hframes] at hstep
          split at hstep
          · exact .inl ⟨newCtx, rest, rfl, ‹_›, (Option.some.inj hstep).symm⟩
          · exact .inr (.inl ⟨_, rest, rfl, .inr ‹_›, (Option.some.inj hstep).symm⟩)
      | callbackOn ctx =>
          simp only [libraryStep, hframes] at hstep
          exact .inr (.inr ⟨ctx, rest, .inl rfl, (Option.some.inj hstep).symm⟩)
      | sleeping ctx =>
          simp only [libraryStep, hframes] at hstep
          exact .inr (.inr ⟨ctx, rest, .inr rfl, (Option.some.inj hstep).symm⟩)
      | exiting =>
          simp only [libraryStep, hframes] at hstep
          exact .inr (.inl ⟨_, rest, rfl, .inl rfl, (Option.some.inj hstep).symm⟩)
      | ifCompletedCallback ctx => simp [libraryStep, hframes] at hstep
      | ifCompletedExit ctx => simp [libraryStep, hframes] at hstep

/-- `ctx->callback = NULL; ctx->callback_ctx = NULL` -/
def callbackCleared (s : Scheduler) (ctx : Nat) : Scheduler :=
  s.modify ctx (fun c => { c with callback := none, callbackCtx := none })

theorem userReturn_cases (hstep : userReturn s = some s') :
    (∃ ctx rest, s.frames = .ifCompletedCallback ctx :: rest ∧
      s' = completedCheck (callbackCleared s ctx) ctx true rest) ∨
    ∃ ctx rest, s.frames = .ifCompletedExit ctx :: rest ∧
      s' = (destroyTask s ctx).returnTo rest := by
  cases hframes : s.frames with
  | nil => simp [userReturn, hframes] at hstep
  | cons frame rest =>
      cases frame with
      | ifCompletedCallback ctx =>
          simp only [userReturn, hframes] at hstep
          exact .inl ⟨ctx, rest, rfl, (Option.some.inj hstep).symm⟩
      | ifCompletedExit ctx =>
          simp only [userReturn, hframes] at hstep
          exact .inr ⟨ctx, rest, rfl, (Option.some.inj hstep).symm⟩
      | afterSwap | callbackOn | sleeping | exiting => simp [userReturn, hframes] at hstep

/-- `cur_task_ctx == default_ctx` holds on the loop only. -/
theorem Core.running_of_cur (h : Core default s) (hcur : s.curTaskCtx = s.defaultCtx) :
    s.running = .loop := by
  rw [h.cur_eq, h.default_eq] at hcur
  exact h.ident_eq_default.mp (Option.some.inj hcur)

/-- The callbacks of `ifCompleted_task` run on the loop only. -/
theorem Core.running_of_completion (h : Core default s) {frame : Frame} {rest : List Frame}
    (hframes : s.frames = frame :: rest) (hframe : ∀ ctx, ¬ frame.OnTask ctx) :
    s.running = .loop := by
  cases howner : s.running with
  | loop => rfl
  | task ctx =>
      have hown := (h.running_task ctx howner).2.2
      rw [hframes] at hown
      exact absurd (hown frame (List.mem_cons_self ..)) (hframe ctx)

theorem Core.returnTo (h : Core default s) {frame : Frame} {rest : List Frame}
    (hframes : s.frames = frame :: rest) : Core default (s.returnTo rest) := by
  refine h.congr rfl rfl rfl rfl rfl rfl ?_ ?_
  · intro ctx howner frame' hmem
    apply (h.running_task ctx howner).2.2
    rw [hframes]
    exact List.mem_cons_of_mem _ hmem
  · intro hloop ctx hmem
    apply h.exit_task ctx
    rw [loopStack, if_pos hloop, hframes]
    exact List.mem_cons_of_mem _ hmem

theorem Core.access (h : Core default s) (ctx : Nat) : Core default (s.access ctx) := by
  refine h.congr rfl rfl rfl rfl rfl rfl ?_ ?_
  · exact fun ctx howner => (h.running_task ctx howner).2.2
  · intro hloop ctx' hmem
    apply h.exit_task ctx'
    rw [loopStack, if_pos hloop]
    exact hmem

theorem Core.exit_rest (h : Core default s) (hloop : s.running = .loop) {frame : Frame}
    {rest : List Frame} (hframes : s.frames = frame :: rest) :
    ∀ ctx, .ifCompletedExit ctx ∈ rest → ctx ≠ default := by
  intro ctx hmem
  apply h.exit_task ctx
  rw [loopStack, if_pos hloop, hframes]
  exact List.mem_cons_of_mem _ hmem

theorem Core.libraryStep (h : Core default s) (hstep : libraryStep s = some s') :
    Core default s' := by
  rcases libraryStep_cases hstep with ⟨newCtx, rest, hframes, hcur, rfl⟩ |
    ⟨frame, rest, hframes, -, rfl⟩ | ⟨ctx, rest, hframes, rfl⟩
  · have hloop := h.running_of_cur hcur
    exact h.ifCompletedTask hloop newCtx (h.exit_rest hloop hframes)
  · exact h.returnTo hframes
  · rcases hframes with hframes | hframes
    · exact (h.access ctx).returnTo hframes
    · exact (h.access ctx).returnTo hframes

theorem Core.callbackCleared (h : Core default s) (ctx : Nat) :
    Core default (callbackCleared s ctx) := by
  apply h.modify
  · exact fun _ => rfl
  · exact fun _ => rfl
  · exact fun _ => ⟨h.default_idle.1, rfl⟩
  · exact fun _ => rfl

theorem Core.userReturn (h : Core default s) (hstep : userReturn s = some s') :
    Core default s' := by
  rcases userReturn_cases hstep with ⟨ctx, rest, hframes, rfl⟩ | ⟨ctx, rest, hframes, rfl⟩
  · have hloop := h.running_of_completion hframes (fun _ => id)
    exact (h.callbackCleared ctx).completedCheck hloop ctx true (h.exit_rest hloop hframes)
  · have hloop := h.running_of_completion hframes (fun _ => id)
    have hne : ctx ≠ default := by
      apply h.exit_task ctx
      rw [loopStack, if_pos hloop, hframes]
      exact List.mem_cons_self ..
    exact (h.destroyTask hloop hne).returnTo hframes

/-- The context whose code is executing. -/
def Scheduler.executing (s : Scheduler) : Option Nat :=
  match s.running with
  | .loop => s.defaultCtx
  | .task ctx => some ctx

theorem Core.executing_eq (h : Core default s) :
    s.executing = some (ident default s.running) := by
  rw [Scheduler.executing, h.default_eq]
  cases s.running with
  | loop => rfl
  | task ctx => rfl

/-- A switch that is not dropped goes to a live context, and a task asks for the loop
on its own behalf. -/
def Reaches (s : Scheduler) : Call → Prop
  | .startTask ctx | .schedTask ctx => s.running = .loop → (s.ctxs ctx).live = true
  | .defaultloopHandlerForTask ctx _ _ => (s.ctxs ctx).live = true
  | .switch2task curCtx newCtx => s.executing = some curCtx → (s.ctxs newCtx).live = true
  | .callbackOnDefaultloop ctx _ _ | .sleepTaskOnDefaultloop ctx _ _ | .exitTask ctx _ _ =>
      s.running = .task ctx
  | .makeTask | .schedDefaultloop _ => True

theorem Core.live_of_reaches (h : Core default s) {curCtx newCtx : Nat}
    (hreaches : Reaches s (.switch2task curCtx newCtx)) (heq : ident default s.running = curCtx) :
    (s.ctxs newCtx).live = true :=
  hreaches (by rw [h.executing_eq, heq])

theorem Core.performCall (h : Core default s) {call : Call} (hreaches : Reaches s call)
    (hstep : performCall s call = some s') : Core default s' := by
  cases call with
  | makeTask =>
      obtain rfl := Option.some.inj hstep
      exact h.makeTask
  | startTask ctx | schedTask ctx =>
      have heq := h.schedTask_eq hreaches
      simp only [Task.performCall, startTask, h.makeDefaultTask] at hstep
      obtain rfl := Option.some.inj (heq.symm.trans hstep)
      split
      · exact h.switched (hreaches ‹_›)
      · exact h.droppedSwitch
  | defaultloopHandlerForTask ctx userData bTimeout =>
      have hhandled := h.handled hreaches userData bTimeout
      have heq := h.defaultloopHandlerForTask_eq hreaches userData bTimeout
      obtain rfl := Option.some.inj (heq.symm.trans hstep)
      split
      · exact hhandled.switched ((handled_live s ctx userData bTimeout ctx).trans hreaches)
      · exact hhandled.droppedSwitch
  | switch2task curCtx newCtx =>
      have hnew := h.live_of_reaches hreaches
      obtain rfl := Option.some.inj ((h.switch2task_cases hnew).symm.trans hstep)
      split
      · exact h.switched (hnew ‹_›)
      · exact h.droppedSwitch
  | schedDefaultloop ctx =>
      obtain rfl := Option.some.inj ((h.schedDefaultloop_eq ctx).symm.trans hstep)
      split
      · exact h.switched h.default_live
      · exact h.droppedSwitch
  | callbackOnDefaultloop ctx callback callbackCtx =>
      have heq := h.callbackOnDefaultloop_eq hreaches callback callbackCtx
      obtain rfl := Option.some.inj (heq.symm.trans hstep)
      have hset := h.setCallback hreaches callback callbackCtx
      exact hset.switched hset.default_live
  | sleepTaskOnDefaultloop ctx callback callbackCtx =>
      have heq := h.sleepTaskOnDefaultloop_eq hreaches callback callbackCtx
      obtain rfl := Option.some.inj (heq.symm.trans hstep)
      have hset := (h.setSleeping hreaches).setCallback hreaches callback callbackCtx
      exact hset.switched hset.default_live
  | exitTask ctx callback callbackCtx =>
      have heq := h.exitTask_eq hreaches callback callbackCtx
      obtain rfl := Option.some.inj (heq.symm.trans hstep)
      have hset := (h.setCompleted hreaches).setCallback hreaches callback callbackCtx
      exact hset.switched hset.default_live

/-- User code calls and returns, and the library goes on, where each has the control. -/
theorem step_control {action : Action} (hstep : step s action = some s') :
    match action with
    | .call call => s.control = .user ∧ performCall s call = some s'
    | .userReturn => s.control = .user ∧ userReturn s = some s'
    | .library => s.control = .library ∧ libraryStep s = some s' := by
  cases action with
  | call | userReturn | library => exact Option.ite_none_right_eq_some.mp hstep

theorem Core.step (h : Core default s) {action : Action}
    (hreaches : ∀ call, action = .call call → Reaches s call)
    (hstep : step s action = some s') : Core default s' := by
  cases action with
  | call call => exact h.performCall (hreaches call rfl) (step_control hstep).2
  | userReturn => exact h.userReturn (step_control hstep).2
  | library => exact h.libraryStep (step_control hstep).2

/-- The state behind `defaultloop_task_init` in a fresh process. -/
def initialised (onExit : Option Ptr) : Scheduler := defaultloopTaskInit onExit .init

theorem initialised_core (onExit : Option Ptr) : Core 0 (initialised onExit) := by
  constructor
  · rfl
  · rfl
  · rfl
  · exact ⟨rfl, rfl⟩
  · exact fun ctx howner => absurd howner (by simp [initialised, defaultloopTaskInit,
      makeDefaultTask, Scheduler.init, makeTask])
  · exact fun hrunning => absurd rfl hrunning
  · intro ctx hne hlive
    have hblank : (initialised onExit).ctxs ctx = .blank := Function.update_of_ne hne _ _
    rw [hblank] at hlive
    exact absurd hlive (by simp [TaskCtx.blank])
  · intro ctx hctx
    have hne : ctx ≠ 0 := by
      have : 1 ≤ ctx := hctx
      omega
    exact ⟨Function.update_of_ne hne _ _, rfl⟩
  · exact fun ctx hmem => absurd hmem (List.not_mem_nil)

/-- A live task that has not called `exit_task`. -/
structure IsTask (s : Scheduler) (ctx : Nat) : Prop where
  ne_default : s.defaultCtx ≠ some ctx
  live : (s.ctxs ctx).live = true
  going : (s.ctxs ctx).bCompleted = false

/-- Loop code starts, schedules and handles live tasks that are not completed; a
running task calls on itself. -/
def OwnCalls (s : Scheduler) : Action → Prop
  | .call call =>
      match s.running, call with
      | .loop, .makeTask => True
      | .loop, .startTask ctx | .loop, .schedTask ctx
      | .loop, .defaultloopHandlerForTask ctx _ _ => IsTask s ctx
      | .task running, .schedDefaultloop ctx | .task running, .callbackOnDefaultloop ctx _ _
      | .task running, .sleepTaskOnDefaultloop ctx _ _
      | .task running, .exitTask ctx _ _ => ctx = running
      | _, _ => False
  | .userReturn | .library => True

/-- The three calls that resume a task from loop code. -/
def resumptions (ctx : Nat) (userData : Ptr) (bTimeout : Bool) : List Call :=
  [.startTask ctx, .schedTask ctx, .defaultloopHandlerForTask ctx userData bTimeout]

/-- `s'` executes the task `ctx` from where `s` records it was last left: its entry if it
has never run. -/
def Resumed (s s' : Scheduler) (ctx : Nat) : Prop :=
  s'.running = .task ctx ∧
    match s.suspended (.task ctx) with
    | none => s'.frames = [] ∧ s'.control = .user
    | some frames => s'.frames = frames ∧ s'.control = .library

/-- The scheduler's variable names the executing context, no switch was dropped, every
other task rests where it was last left, and each call that resumes a task does. -/
structure Owned (s : Scheduler) : Prop where
  cur : s.curTaskCtx = s.executing
  undropped : s.dropped = 0
  others : ∀ ctx, s.defaultCtx ≠ some ctx → (s.ctxs ctx).live = true → s.running ≠ .task ctx →
    SavedAt s ctx
  resumes : s.running = .loop → ∀ ctx, IsTask s ctx →
    ∀ userData bTimeout, ∀ call ∈ resumptions ctx userData bTimeout,
      ∃ s', performCall s call = some s' ∧ s'.dropped = 0 ∧ Resumed s s' ctx

theorem switched_resumed (hloop : s.running = .loop) {ctx : Nat}
    (hne : ctx ≠ default) : Resumed s (Task.switched default s ctx) ctx := by
  have howner : ownerOf default ctx = .task ctx := if_neg hne
  have htarget : target default s ctx = match s.suspended (.task ctx) with
      | none => ([], .user)
      | some frames => (frames, .library) := by
    rw [target, howner, if_neg (by rw [hloop]; simp)]
  refine ⟨howner, ?_⟩
  change match s.suspended (.task ctx) with
    | none => (target default s ctx).1 = [] ∧ (target default s ctx).2 = .user
    | some frames => (target default s ctx).1 = frames ∧ (target default s ctx).2 = .library
  rw [htarget]
  cases s.suspended (.task ctx) with
  | none => exact ⟨rfl, rfl⟩
  | some frames => exact ⟨rfl, rfl⟩

theorem completedCheck_dropped (s : Scheduler) (ctx : Nat) (hasExitCallback : Bool)
    (rest : List Frame) : (completedCheck s ctx hasExitCallback rest).dropped = s.dropped := by
  rw [completedCheck]
  split
  · split
    · rfl
    · rfl
  · rfl

theorem ifCompletedTask_dropped (s : Scheduler) (ctx : Nat) (rest : List Frame) :
    (ifCompletedTask s ctx rest).dropped = s.dropped := by
  rw [ifCompletedTask]
  split
  · rfl
  · exact completedCheck_dropped _ _ _ _

theorem libraryStep_dropped (hstep : libraryStep s = some s') : s'.dropped = s.dropped := by
  rcases libraryStep_cases hstep with ⟨newCtx, rest, -, -, rfl⟩ | ⟨frame, rest, -, -, rfl⟩ |
    ⟨ctx, rest, -, rfl⟩
  · exact ifCompletedTask_dropped s newCtx rest
  · rfl
  · rfl

theorem userReturn_dropped (hstep : userReturn s = some s') : s'.dropped = s.dropped := by
  rcases userReturn_cases hstep with ⟨ctx, rest, -, rfl⟩ | ⟨ctx, rest, -, rfl⟩
  · exact completedCheck_dropped _ _ _ _
  · rfl

/-- Loop code calls on tasks and a task on itself: the guard lets every such call through. -/
theorem Core.ownCall (h : Core default s) {call : Call} (hown : OwnCalls s (.call call)) :
    Reaches s call ∧ ∃ s', Task.performCall s call = some s' ∧ s'.dropped = s.dropped := by
  cases howner : s.running with
  | loop =>
      cases call with
      | makeTask => exact ⟨trivial, Task.makeTask s .entry, rfl, rfl⟩
      | startTask ctx | schedTask ctx =>
          simp only [OwnCalls, howner] at hown
          refine ⟨fun _ => hown.live, Task.switched default s ctx, ?_, rfl⟩
          simp only [Task.performCall, startTask, h.makeDefaultTask]
          rw [h.schedTask_eq (fun _ => hown.live), if_pos howner]
      | defaultloopHandlerForTask ctx userData bTimeout =>
          simp only [OwnCalls, howner] at hown
          refine ⟨hown.live, Task.switched default (Task.handled s ctx userData bTimeout) ctx,
            ?_, rfl⟩
          exact (h.defaultloopHandlerForTask_eq hown.live userData bTimeout).trans
            (by rw [if_pos howner])
      | switch2task | schedDefaultloop | callbackOnDefaultloop | sleepTaskOnDefaultloop
      | exitTask => simp [OwnCalls, howner] at hown
  | task running =>
      cases call with
      | schedDefaultloop ctx =>
          simp only [OwnCalls, howner] at hown
          refine ⟨trivial, Task.switched default s default, ?_, rfl⟩
          refine (h.schedDefaultloop_eq ctx).trans ?_
          rw [if_pos]
          rw [howner, hown]
          rfl
      | callbackOnDefaultloop ctx callback callbackCtx =>
          simp only [OwnCalls, howner] at hown
          have hself : s.running = .task ctx := by rw [howner, hown]
          exact ⟨hself, _, h.callbackOnDefaultloop_eq hself callback callbackCtx, rfl⟩
      | sleepTaskOnDefaultloop ctx callback callbackCtx =>
          simp only [OwnCalls, howner] at hown
          have hself : s.running = .task ctx := by rw [howner, hown]
          exact ⟨hself, _, h.sleepTaskOnDefaultloop_eq hself callback callbackCtx, rfl⟩
      | exitTask ctx callback callbackCtx =>
          simp only [OwnCalls, howner] at hown
          have hself : s.running = .task ctx := by rw [howner, hown]
          exact ⟨hself, _, h.exitTask_eq hself callback callbackCtx, rfl⟩
      | makeTask | startTask | schedTask | defaultloopHandlerForTask | switch2task =>
          simp [OwnCalls, howner] at hown

theorem Core.ownStep (h : Core default s) {action : Action} (hown : OwnCalls s action)
    (hstep : Task.step s action = some s') : Core default s' ∧ s'.dropped = s.dropped := by
  refine ⟨h.step (fun call hcall => (h.ownCall (hcall ▸ hown)).1) hstep, ?_⟩
  cases action with
  | call call =>
      obtain ⟨-, next, hnext, hdropped⟩ := h.ownCall hown
      obtain rfl := Option.some.inj (hnext.symm.trans (step_control hstep).2)
      exact hdropped
  | userReturn => exact userReturn_dropped (step_control hstep).2
  | library => exact libraryStep_dropped (step_control hstep).2

theorem Core.owned (h : Core default s) (hdropped : s.dropped = 0) : Owned s where
  cur := by
    rw [h.cur_eq, h.executing_eq]
  undropped := hdropped
  others := by
    intro ctx hne
    rw [h.default_eq] at hne
    exact h.task_saved ctx (fun heq => hne (congrArg some heq.symm))
  resumes := by
    intro hloop ctx htask userData bTimeout call hcall
    have hne : ctx ≠ default := by
      intro heq
      apply htask.ne_default
      rw [h.default_eq, heq]
    have hresumed := switched_resumed hloop hne
    have hsched := h.schedTask_eq (fun _ => htask.live)
    rw [if_pos hloop] at hsched
    simp only [resumptions, List.mem_cons, List.not_mem_nil, or_false] at hcall
    rcases hcall with rfl | rfl | rfl
    · refine ⟨Task.switched default s ctx, ?_, hdropped, hresumed⟩
      simpa only [Task.performCall, startTask, h.makeDefaultTask] using hsched
    · exact ⟨_, hsched, hdropped, hresumed⟩
    · have hhandled := h.defaultloopHandlerForTask_eq htask.live userData bTimeout
      rw [if_pos hloop] at hhandled
      refine ⟨_, hhandled, hdropped, ?_⟩
      exact @switched_resumed default (Task.handled s ctx userData bTimeout) hloop ctx hne

/-- From `defaultloop_task_init` on, whatever the loop and the tasks call on tasks and on
themselves: the scheduler's variable names whoever is executing, no switch is dropped, and
a resumed task goes on exactly where it was left. -/
theorem scheduler_ownership (onExit : Option Ptr) (actions : List Action)
    (hguard : Runs.Guarded step OwnCalls (initialised onExit) actions)
    (hrun : Runs.run step (initialised onExit) actions = some s) : Owned s := by
  have hkept (s : Scheduler) (action : Action) (s' : Scheduler)
      (hs : Core 0 s ∧ s.dropped = 0) (hown : OwnCalls s action)
      (hstep : step s action = some s') : Core 0 s' ∧ s'.dropped = 0 := by
    obtain ⟨hcore, hsame⟩ := hs.1.ownStep hown hstep
    exact ⟨hcore, hsame.trans hs.2⟩
  have hend := Runs.guarded_run_invariant hkept ⟨initialised_core onExit, rfl⟩ hguard hrun
  exact hend.1.owned hend.2

/-- A callback on the loop starts a second task, which exits while the first one waits. -/
def nestedRun : List Action :=
  [.call .makeTask, .call .makeTask, .call (.startTask 1),
    .call (.callbackOnDefaultloop 1 (some 7) none), .library, .call (.startTask 2),
    .call (.exitTask 2 none none), .library, .userReturn, .call (.schedTask 1), .library]

theorem nestedRun_owned :
    ∃ s, Runs.run step (initialised none) nestedRun = some s ∧ Owned s := by
  refine ⟨_, rfl, scheduler_ownership none nestedRun ?_ rfl⟩
  refine .cons trivial rfl (.cons trivial rfl (.cons ⟨by decide, rfl, rfl⟩ rfl ?_))
  refine .cons rfl rfl (.cons trivial rfl (.cons ⟨by decide, rfl, rfl⟩ rfl ?_))
  refine .cons rfl rfl (.cons trivial rfl (.cons trivial rfl ?_))
  exact .cons ⟨by decide, rfl, rfl⟩ rfl (.cons trivial rfl trivial)

end EventLoop.Task
