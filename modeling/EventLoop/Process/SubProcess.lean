import EventLoop.Lib.Runs
import EventLoop.Lib.Separated
import Mathlib.Logic.Function.Basic

/-!
`unixProcess.c`: a process starts others in the background, and finds them again by the process
ids in their pid files. A child whose program cannot be executed removes its pid file, whatever
its parent is about to do with it.
-/

namespace EventLoop.SubProcess

variable {ν : Type*}

/-- A child that has not been waited for. -/
inductive Child (ν : Type*) where
  /-- Between `fork` and `execvp`. -/
  | forked (pidFile : ν)
  /-- Between `execvp` and `unlink`. -/
  | execFailed (pidFile : ν)
  | running
  | zombie

/-- What the parent is about to do. -/
inductive Call (ν : Type*) where
  | none
  /-- `fopen(pidFileName,"w")` -/
  | create (pidFile : ν) (pidC : Int)
  /-- `fclose(fp)`, which writes the process id. -/
  | write (pidFile : ν) (pidC : Int)
  /-- `waitpid(pid,&status,WNOWAIT)` -/
  | probe (pidFile : ν) (pid : Int)
  /-- `fopen(pidFile,"r")` in `run_sub_process` -/
  | verify (pidFile : ν) (status : Option Int)
  /-- `unlink(pidFile)` in `kill_sub_process`, or in `wait_sub_process` -/
  | unlink (reap : Bool) (pidFile : ν) (proc1pid : Int)
  /-- `kill(proc1pid,SIGKILL)`, or `waitpid(proc1pid,&status,0)` -/
  | finish (reap : Bool) (proc1pid : Int)
  /-- `waitpid(proc1pid,&status,WNOWAIT)` -/
  | check (proc1pid : Int)
deriving DecidableEq

structure State (ν : Type*) where
  children : Int → Option (Child ν)
  /-- The other processes of the machine. -/
  others : Int → Bool
  /-- The number in a file, if there is one in it. -/
  files : ν → Option (Option Int)
  call : Call ν
  /-- What the last call has returned. -/
  returned : Int

inductive Action (ν : Type*) where
  | otherStarts (pid : Int)
  | otherEnds (pid : Int)
  /-- `run_sub_process` forks; there is no `pid` if that fails. -/
  | fork (pidFile : ν) (pid : Option Int)
  | create (succeeds : Bool)
  | write
  /-- Nothing is stored in `status` where the option is not accepted. -/
  | probe (status : Option Int)
  | verify
  /-- `kill_sub_process` or `wait_sub_process` reads the file. -/
  | read (reap : Bool) (pidFile : ν)
  | unlink
  | finish (status : Int)
  /-- `check_sub_process` reads the file. -/
  | check (pidFile : ν)
  | checked (status : Option Int)
  | exec (pid : Int) (succeeds : Bool)
  | removeFile (pid : Int)
  | exit (pid : Int)

def State.setChild (s : State ν) (pid : Int) (child : Option (Child ν)) : State ν :=
  { s with children := Function.update s.children pid child }

def State.setFile [DecidableEq ν] (s : State ν) (pidFile : ν) (content : Option (Option Int)) : State ν :=
  { s with files := Function.update s.files pidFile content }

def State.call' (s : State ν) (call : Call ν) : State ν := { s with call }

/-- The call ends. -/
def State.return (s : State ν) (value : Int) : State ν := { s with call := .none, returned := value }

/-- `int proc1pid=-1; fscanf(fp,"%d",&proc1pid);` -/
def proc1pid (content : Option Int) : Int := content.getD (-1)

/-- A process id that `fork` can give. -/
def State.Free (s : State ν) (pid : Int) : Prop :=
  0 < pid ∧ s.children pid = none ∧ s.others pid = false

instance (s : State ν) (pid : Int) : Decidable (s.Free pid) :=
  inferInstanceAs (Decidable (_ ∧ _ ∧ _))

/-- What a child does. -/
def childStep [DecidableEq ν] (s : State ν) (pid : Int) : Action ν → Option (State ν)
  | .exec _ succeeds =>
      match s.children pid with
      | some (.forked pidFile) =>
          some (s.setChild pid (some (if succeeds then .running else .execFailed pidFile)))
      | _ => none
  | .removeFile _ =>
      match s.children pid with
      | some (.execFailed pidFile) => some ((s.setFile pidFile none).setChild pid (some .running))
      | _ => none
  | .exit _ => if (s.children pid).isSome then some (s.setChild pid (some .zombie)) else none
  | _ => none

def step [DecidableEq ν] (s : State ν) (action : Action ν) : Option (State ν) :=
  match action with
  | .otherStarts pid =>
      if s.Free pid then some { s with others := Function.update s.others pid true } else none
  | .otherEnds pid => some { s with others := Function.update s.others pid false }
  | .exec pid _ | .removeFile pid | .exit pid => childStep s pid action
  | .fork pidFile pid =>
      if s.call = .none then
        match pid with
        | none => some (s.call' (.create pidFile (-1)))
        | some pid =>
            if s.Free pid then
              some ((s.setChild pid (some (.forked pidFile))).call' (.create pidFile pid))
            else none
      else none
  | .create succeeds =>
      match s.call with
      | .create pidFile pidC =>
          if succeeds then some ((s.setFile pidFile (some none)).call' (.write pidFile pidC))
          else if pidC = -1 then some (s.return (-1))
          else some (s.call' (.probe pidFile pidC))
      | _ => none
  | .write =>
      match s.call with
      | .write pidFile pidC =>
          -- the file may have been removed since it was opened
          let s := if (s.files pidFile).isSome then s.setFile pidFile (some (some pidC)) else s
          if pidC = -1 then some (s.return (-1)) else some (s.call' (.probe pidFile pidC))
      | _ => none
  | .probe status =>
      match s.call with
      | .probe pidFile _ => some (s.call' (.verify pidFile status))
      | _ => none
  | .verify =>
      match s.call with
      | .verify pidFile status =>
          if (s.files pidFile).join = none ∧ status = none then some (s.return (-3))
          else some (s.return 0)
      | _ => none
  | .read reap pidFile =>
      if s.call = .none then
        match s.files pidFile with
        | none => some (s.return (if reap then -1 else 0))
        | some content => some (s.call' (.unlink reap pidFile (proc1pid content)))
      else none
  | .unlink =>
      match s.call with
      | .unlink reap pidFile pid => some ((s.setFile pidFile none).call' (.finish reap pid))
      | _ => none
  | .finish status =>
      match s.call with
      | .finish reap pid =>
          if pid < 0 then some (s.return (if reap then -1 else 0))
          else if reap then
            match s.children pid with
            | some .zombie => some ((s.setChild pid none).return status)
            | some _ => none
            | none => some (s.return (-1))
          else some ({ s with others := Function.update s.others pid false }.return 0)
      | _ => none
  | .check pidFile =>
      if s.call = .none then
        match s.files pidFile with
        | none => some (s.return (-1))
        | some content => some (s.call' (.check (proc1pid content)))
      else none
  | .checked status =>
      match s.call with
      | .check pid => some (s.return (if pid < 0 then -1 else status.getD (-1)))
      | _ => none

/-- The process id that `kill` or `waitpid` is given. -/
def named (s : State ν) : Action ν → Option Int
  | .probe _ => match s.call with
      | .probe _ pid => some pid
      | _ => none
  | .finish _ => match s.call with
      | .finish _ pid => if 0 ≤ pid then some pid else none
      | _ => none
  | .checked _ => match s.call with
      | .check pid => if 0 ≤ pid then some pid else none
      | _ => none
  | _ => none

/-- The process id that the parent has in a variable. -/
def Call.pid : Call ν → Option Int
  | .create _ pid | .write _ pid | .probe _ pid | .unlink _ _ pid | .finish _ pid | .check pid =>
      some pid
  | .none | .verify _ _ => Option.none

/-- Whether it may be in this file, too. -/
def Call.MayBeIn (pidFile : ν) : Call ν → Prop
  | .create _ _ | .write _ _ | .finish _ _ => False
  | .unlink _ name _ => pidFile = name
  | _ => True

/-- What `fork` has given, which is checked before `waitpid` gets it. -/
def Call.Valid : Call ν → Prop
  | .create _ pid | .write _ pid => pid = -1 ∨ 0 ≤ pid
  | .probe _ pid => 0 ≤ pid
  | _ => True

/-- Every process id that is known is that of a child that has not been waited for. -/
structure Owned (s : State ν) : Prop where
  file : ∀ n pid, s.files n = some (some pid) → 0 ≤ pid → s.children pid ≠ none
  once : ∀ n m pid, s.files n = some (some pid) → s.files m = some (some pid) → 0 ≤ pid → n = m
  disjoint : ∀ pid, s.children pid ≠ none → s.others pid = false
  held : ∀ pid, s.call.pid = some pid → 0 ≤ pid → s.children pid ≠ none
  inFile : ∀ n pid, s.files n = some (some pid) → 0 ≤ pid → s.call.pid = some pid →
    s.call.MayBeIn n
  valid : s.call.Valid

variable {s s' : State ν} {pid : Int} {n : ν}

theorem file_of_proc1pid {content : Option Int} (hfile : s.files n = some content)
    (hpid : proc1pid content = pid) (hle : 0 ≤ pid) : s.files n = some (some pid) := by
  cases content with
  | none =>
      subst hpid
      exact absurd hle (by decide)
  | some number =>
      rw [hfile]
      exact congrArg (some ∘ some) hpid

section

variable (h : Owned s)
include h

theorem Owned.setChild (child : Child ν) (hother : s.others pid = false) :
    Owned (s.setChild pid (some child)) := by
  have hchild {other : Int} (hne : s.children other ≠ none) :
      Function.update s.children pid (some child) other ≠ none := by
    by_cases heq : other = pid
    · simp [heq]
    · simpa [heq] using hne
  refine ⟨?_, h.once, ?_, ?_, h.inFile, h.valid⟩
  · exact fun m other hm hle => hchild (h.file m other hm hle)
  · intro other hne
    by_cases heq : other = pid
    · rw [heq]
      exact hother
    · exact h.disjoint other (by simpa [State.setChild, heq] using hne)
  · exact fun other hheld hle => hchild (h.held other hheld hle)

/-- Files may become empty or be removed, and -1 is not the number of a process. -/
theorem Owned.clearFile [DecidableEq ν] {content : Option (Option Int)}
    (hcontent : ∀ pid, content = some (some pid) → pid < 0) :
    Owned (s.setFile n content) := by
  have hfile {m : ν} {other : Int} (hle : 0 ≤ other)
      (hm : Function.update s.files n content m = some (some other)) :
      s.files m = some (some other) := by
    by_cases heq : m = n
    · subst heq
      rw [Function.update_self] at hm
      exact absurd (hcontent other hm) (Int.not_lt.mpr hle)
    · rwa [Function.update_of_ne heq] at hm
  refine ⟨?_, ?_, h.disjoint, h.held, ?_, h.valid⟩
  · exact fun m other hm hle => h.file m other (hfile hle hm) hle
  · exact fun m m' other hm hm' hle => h.once m m' other (hfile hle hm) (hfile hle hm') hle
  · exact fun m other hm hle => h.inFile m other (hfile hle hm) hle

theorem Owned.call' {call : Call ν}
    (hheld : ∀ pid, call.pid = some pid → 0 ≤ pid → s.children pid ≠ none)
    (hfile : ∀ n pid, s.files n = some (some pid) → 0 ≤ pid → call.pid = some pid →
      call.MayBeIn n) (hvalid : call.Valid) : Owned (s.call' call) :=
  ⟨h.file, h.once, h.disjoint, hheld, hfile, hvalid⟩

/-- The same process id, in another place. -/
theorem Owned.keep {call : Call ν} (hpid : ∀ pid, call.pid = some pid → s.call.pid = some pid)
    (hplace : ∀ n, s.call.MayBeIn n → call.MayBeIn n) (hvalid : call.Valid) :
    Owned (s.call' call) :=
  h.call' (fun pid hcall => h.held pid (hpid pid hcall))
    (fun n pid hn hle hcall => hplace n (h.inFile n pid hn hle (hpid pid hcall))) hvalid

theorem Owned.return (value : Int) : Owned (s.return value) :=
  ⟨h.file, h.once, h.disjoint, (fun _ hpid => by cases hpid), (fun _ _ _ _ hpid => by cases hpid),
    trivial⟩

/-- The process id that is in no file is written to one. -/
theorem Owned.writeFile [DecidableEq ν] (hcall : s.call = .write n pid) (hpid : 0 ≤ pid) :
    Owned (s.setFile n (some (some pid)) |>.call' (.probe n pid)) := by
  have haway (m : ν) (hle : 0 ≤ pid) : s.files m ≠ some (some pid) := by
    intro hm
    have hplace := h.inFile m pid hm hle (by rw [hcall]; rfl)
    rw [hcall] at hplace
    exact hplace
  have hheld (hle : 0 ≤ pid) : s.children pid ≠ none := h.held pid (by rw [hcall]; rfl) hle
  have hfile {m : ν} {other : Int}
      (hm : Function.update s.files n (some (some pid)) m = some (some other)) :
      m = n ∧ other = pid ∨ m ≠ n ∧ s.files m = some (some other) := by
    by_cases heq : m = n
    · subst heq
      rw [Function.update_self] at hm
      exact .inl ⟨rfl, (Option.some.inj (Option.some.inj hm)).symm⟩
    · rw [Function.update_of_ne heq] at hm
      exact .inr ⟨heq, hm⟩
  refine ⟨?_, ?_, h.disjoint, ?_, (fun _ _ _ _ _ => trivial), hpid⟩
  · intro m other hm hle
    rcases hfile hm with ⟨-, rfl⟩ | ⟨-, hm⟩
    · exact hheld hle
    · exact h.file m other hm hle
  · intro m m' other hm hm' hle
    rcases hfile hm with ⟨rfl, rfl⟩ | ⟨-, hbefore⟩
    · rcases hfile hm' with ⟨rfl, -⟩ | ⟨-, hbefore'⟩
      · rfl
      · exact absurd hbefore' (haway m' hle)
    · rcases hfile hm' with ⟨rfl, rfl⟩ | ⟨-, hbefore'⟩
      · exact absurd hbefore (haway m hle)
      · exact h.once m m' other hbefore hbefore' hle
  · intro other hother hle
    obtain rfl : pid = other := Option.some.inj hother
    exact hheld hle

theorem Owned.childStep [DecidableEq ν] {action : Action ν} (hstep : childStep s pid action = some s') :
    Owned s' := by
  have hother {child : Child ν} (hchild : s.children pid = some child) : s.others pid = false :=
    h.disjoint pid (by simp [hchild])
  unfold SubProcess.childStep at hstep
  split at hstep
  · split at hstep
    · rename_i hchild
      cases hstep
      exact h.setChild _ (hother hchild)
    · cases hstep
  · split at hstep
    · rename_i hchild
      cases hstep
      exact (h.clearFile (by simp)).setChild _ (hother hchild)
    · cases hstep
  · split at hstep
    · rename_i hchild
      cases hstep
      exact h.setChild _ (h.disjoint pid (Option.isSome_iff_ne_none.mp hchild))
    · cases hstep
  · cases hstep

/-- The one whose process id is in no other place may be waited for. -/
theorem Owned.reap (hcall : s.call = .finish true pid) (hle : 0 ≤ pid) (status : Int) :
    Owned ((s.setChild pid none).return status) := by
  have hother {m : ν} {other : Int} (hm : s.files m = some (some other)) (hother : 0 ≤ other) :
      other ≠ pid := by
    rintro rfl
    have hplace := h.inFile m other hm hle (by rw [hcall]; rfl)
    rw [hcall] at hplace
    exact hplace
  refine ⟨?_, h.once, ?_, (fun _ hpid => by cases hpid), (fun _ _ _ _ hpid => by cases hpid),
    trivial⟩
  · intro m other hm hother'
    simpa [State.return, State.setChild, hother hm hother'] using h.file m other hm hother'
  · intro other hne
    apply h.disjoint other
    intro hnone
    by_cases heq : other = pid
    · simp [State.return, State.setChild, heq] at hne
    · simp [State.return, State.setChild, heq, hnone] at hne

/-- A process that is started gets a process id that is nowhere. -/
theorem Owned.start (hfree : s.Free pid) :
    Owned ((s.setChild pid (some (.forked n))).call' (.create n pid)) := by
  refine (h.setChild _ hfree.2.2).call' ?_ ?_ (.inr (Int.le_of_lt hfree.1))
  · intro other hother _
    obtain rfl : pid = other := Option.some.inj hother
    simp [State.setChild]
  · intro m other hm hle hother
    obtain rfl : pid = other := Option.some.inj hother
    exact absurd hfree.2.1 (h.file m pid hm hle)

/-- The other processes may come, with a process id that no child has, and go. -/
theorem Owned.setOther (value : Bool) (hvalue : value = true → s.children pid = none) :
    Owned { s with others := Function.update s.others pid value } := by
  refine ⟨h.file, h.once, ?_, h.held, h.inFile, h.valid⟩
  intro other hne
  by_cases heq : other = pid
  · subst heq
    cases value with
    | false => simp
    | true => exact absurd (hvalue rfl) hne
  · simpa [heq] using h.disjoint other hne

end

/-- Only the process ids of children are given to `kill` and `waitpid`. -/
theorem Owned.named {action : Action ν} (h : Owned s)
    (hnamed : named s action = some pid) : s.children pid ≠ none := by
  cases action with
  | probe status =>
      simp only [SubProcess.named] at hnamed
      split at hnamed
      case h_2 => cases hnamed
      case h_1 hcall =>
          cases hnamed
          have hvalid := h.valid
          rw [hcall] at hvalid
          exact h.held _ (by rw [hcall]; rfl) hvalid
  | finish status =>
      simp only [SubProcess.named] at hnamed
      split at hnamed
      case h_2 => cases hnamed
      case h_1 hcall =>
          split at hnamed
          case isFalse => cases hnamed
          case isTrue hle =>
              cases hnamed
              exact h.held _ (by rw [hcall]; rfl) hle
  | checked status =>
      simp only [SubProcess.named] at hnamed
      split at hnamed
      case h_2 => cases hnamed
      case h_1 hcall =>
          split at hnamed
          case isFalse => cases hnamed
          case isTrue hle =>
              cases hnamed
              exact h.held _ (by rw [hcall]; rfl) hle
  | _ => cases hnamed

section

variable [DecidableEq ν] {action : Action ν}

theorem Owned.otherStarts (h : Owned s) {pid : Int}
    (hstep : SubProcess.step s (.otherStarts pid) = some s') : Owned s' := by
  simp only [SubProcess.step, Option.ite_none_right_eq_some, Option.some_inj] at hstep
  obtain ⟨hfree, rfl⟩ := hstep
  exact h.setOther true (fun _ => hfree.2.1)

theorem Owned.otherEnds (h : Owned s) {pid : Int}
    (hstep : SubProcess.step s (.otherEnds pid) = some s') : Owned s' := by
  cases hstep
  exact h.setOther false (fun hfalse => by cases hfalse)

theorem Owned.fork (h : Owned s) {pidFile : ν} {pid : Option Int}
    (hstep : SubProcess.step s (.fork pidFile pid) = some s') : Owned s' := by
  simp only [SubProcess.step, Option.ite_none_right_eq_some] at hstep
  obtain ⟨-, hstep⟩ := hstep
  cases pid with
  | none =>
      cases hstep
      refine h.call' ?_ ?_ (.inl rfl)
      · rintro pid hpid hle
        cases hpid
        exact absurd hle (by decide)
      · rintro n pid - hle hpid
        cases hpid
        exact absurd hle (by decide)
  | some pid =>
      simp only [Option.ite_none_right_eq_some, Option.some_inj] at hstep
      obtain ⟨hfree, rfl⟩ := hstep
      exact h.start hfree

theorem Owned.create (h : Owned s) {succeeds : Bool}
    (hstep : SubProcess.step s (.create succeeds) = some s') : Owned s' := by
  simp only [SubProcess.step] at hstep
  split at hstep
  case h_2 => cases hstep
  case h_1 pidFile pidC hcall =>
      have hvalid := h.valid
      rw [hcall] at hvalid
      split_ifs at hstep with hcreated hfailed
      · cases hstep
        refine (h.clearFile (by simp)).keep ?_ ?_ hvalid
        · exact fun pid hpid => by rwa [State.setFile, hcall]
        · exact fun n hn => by rwa [State.setFile, hcall] at hn
      · cases hstep
        exact h.return _
      · cases hstep
        refine h.keep ?_ (fun n _ => trivial) (hvalid.resolve_left hfailed)
        exact fun pid hpid => by rwa [hcall]

theorem Owned.write (h : Owned s)
    (hstep : SubProcess.step s .write = some s') : Owned s' := by
  simp only [SubProcess.step] at hstep
  split at hstep
  case h_2 => cases hstep
  case h_1 pidFile pidC hcall =>
      have hvalid := h.valid
      rw [hcall] at hvalid
      split_ifs at hstep with hfailed hlinked hlinked
      · cases hstep
        subst hfailed
        exact (h.clearFile (by simp)).return (-1)
      · cases hstep
        exact h.return (-1)
      · cases hstep
        exact h.writeFile hcall (hvalid.resolve_left hfailed)
      · cases hstep
        refine h.keep ?_ (fun n _ => trivial) (hvalid.resolve_left hfailed)
        exact fun pid hpid => by rwa [hcall]

theorem Owned.probe (h : Owned s) {status : Option Int}
    (hstep : SubProcess.step s (.probe status) = some s') : Owned s' := by
  simp only [SubProcess.step] at hstep
  split at hstep
  case h_2 => cases hstep
  case h_1 =>
      cases hstep
      exact h.keep (fun _ hpid => by cases hpid) (fun _ _ => trivial) trivial

theorem Owned.verify (h : Owned s)
    (hstep : SubProcess.step s .verify = some s') : Owned s' := by
  simp only [SubProcess.step] at hstep
  split at hstep
  case h_2 => cases hstep
  case h_1 =>
      split_ifs at hstep
      all_goals
        cases hstep
        exact h.return _

theorem Owned.read (h : Owned s) {reap : Bool} {pidFile : ν}
    (hstep : SubProcess.step s (.read reap pidFile) = some s') : Owned s' := by
  simp only [SubProcess.step, Option.ite_none_right_eq_some] at hstep
  obtain ⟨-, hstep⟩ := hstep
  split at hstep
  case h_1 =>
      cases hstep
      exact h.return _
  case h_2 content hfile =>
      cases hstep
      refine h.call' ?_ ?_ trivial
      · intro pid hpid hle
        exact h.file pidFile pid (file_of_proc1pid hfile (Option.some.inj hpid) hle) hle
      · intro n pid hn hle hpid
        have hread := file_of_proc1pid hfile (Option.some.inj hpid) hle
        exact h.once n pidFile pid hn hread hle

theorem Owned.unlink (h : Owned s)
    (hstep : SubProcess.step s .unlink = some s') : Owned s' := by
  simp only [SubProcess.step] at hstep
  split at hstep
  case h_2 => cases hstep
  case h_1 reap pidFile pid hcall =>
      cases hstep
      refine (h.clearFile (by simp)).call' ?_ ?_ trivial
      · exact fun other hother => h.held other (by rwa [hcall])
      · intro n other hn hle hother
        by_cases heq : n = pidFile
        · simp [State.setFile, heq] at hn
        · have hbefore : s.files n = some (some other) := by
            simpa [State.setFile, heq] using hn
          have hplace := h.inFile n other hbefore hle (by rwa [hcall])
          rw [hcall] at hplace
          exact heq hplace

theorem Owned.finish (h : Owned s) {status : Int}
    (hstep : SubProcess.step s (.finish status) = some s') : Owned s' := by
  simp only [SubProcess.step] at hstep
  split at hstep
  case h_2 => cases hstep
  case h_1 reap pid hcall =>
      split at hstep
      case isTrue =>
          cases hstep
          exact h.return _
      case isFalse hnegative =>
          cases reap with
          | false =>
              cases hstep
              exact (h.setOther false (fun hfalse => by cases hfalse)).return _
          | true =>
              rw [if_pos rfl] at hstep
              split at hstep
              · cases hstep
                exact h.reap hcall (Int.not_lt.mp hnegative) status
              · cases hstep
              · cases hstep
                exact h.return _

theorem Owned.check (h : Owned s) {pidFile : ν}
    (hstep : SubProcess.step s (.check pidFile) = some s') : Owned s' := by
  simp only [SubProcess.step, Option.ite_none_right_eq_some] at hstep
  obtain ⟨-, hstep⟩ := hstep
  split at hstep
  case h_1 =>
      cases hstep
      exact h.return _
  case h_2 content hfile =>
      cases hstep
      refine h.call' ?_ (fun _ _ _ _ _ => trivial) trivial
      intro pid hpid hle
      exact h.file pidFile pid (file_of_proc1pid hfile (Option.some.inj hpid) hle) hle

theorem Owned.checked (h : Owned s) {status : Option Int}
    (hstep : SubProcess.step s (.checked status) = some s') : Owned s' := by
  simp only [SubProcess.step] at hstep
  split at hstep
  case h_2 => cases hstep
  case h_1 =>
      cases hstep
      exact h.return _

/-- No step loses sight of whose a process id is. -/
theorem Owned.step (h : Owned s) (hstep : step s action = some s') : Owned s' := by
  cases action with
  | otherStarts pid => exact h.otherStarts hstep
  | otherEnds pid => exact h.otherEnds hstep
  | exec pid succeeds =>
      change SubProcess.childStep s pid (.exec pid succeeds) = some s' at hstep
      exact h.childStep hstep
  | removeFile pid =>
      change SubProcess.childStep s pid (.removeFile pid) = some s' at hstep
      exact h.childStep hstep
  | exit pid =>
      change SubProcess.childStep s pid (.exit pid) = some s' at hstep
      exact h.childStep hstep
  | fork pidFile pid => exact h.fork hstep
  | create succeeds => exact h.create hstep
  | write => exact h.write hstep
  | probe status => exact h.probe hstep
  | verify => exact h.verify hstep
  | read reap pidFile => exact h.read hstep
  | unlink => exact h.unlink hstep
  | finish status => exact h.finish hstep
  | check pidFile => exact h.check hstep
  | checked status => exact h.checked hstep

/-- A process that has just been started. -/
def State.start (others : Int → Bool) (files : ν → Option (Option Int)) : State ν :=
  ⟨fun _ => none, others, files, .none, 0⟩

/-- In this run `kill` and `waitpid` are only given process ids of children that have not been
waited for, and so of no other process. -/
def OwnOnly (start : State ν) : Prop :=
  ∀ actions s, Runs.run step start actions = some s → ∀ action pid, (step s action).isSome →
    named s action = some pid → s.children pid ≠ none ∧ s.others pid = false

omit [DecidableEq ν] in
theorem Owned.start_of (others : Int → Bool) {files : ν → Option (Option Int)}
    (hfiles : ∀ n pid, files n = some (some pid) → pid < 0) : Owned (State.start others files) where
  file := fun n pid hn hle => absurd (hfiles n pid hn) (Int.not_lt.mpr hle)
  once := fun n _ pid hn _ hle => absurd (hfiles n pid hn) (Int.not_lt.mpr hle)
  disjoint := fun _ hne => absurd rfl hne
  held := fun _ hpid => by cases hpid
  inFile := fun _ _ _ _ hpid => by cases hpid
  valid := trivial

/-- Whatever is started, waited for, killed and asked for, and in whatever order the children fail
and end meanwhile, no process but a child is signalled or waited for, exactly if no process id is
left in a pid file from an earlier time. -/
theorem ownOnly_iff (others : Int → Bool) (files : ν → Option (Option Int)) :
    OwnOnly (State.start others files) ↔ ∀ n pid, files n = some (some pid) → pid < 0 := by
  constructor
  · intro hown n pid hn
    apply Int.not_le.mp
    intro hle
    have hread : Runs.run step (State.start others files) [.read false n, .unlink] =
        some (((State.start others files).setFile n none).call' (.finish false pid)) := by
      simp [Runs.run, SubProcess.step, State.start, hn, proc1pid, State.call', State.setFile]
    have hnot : ¬ pid < 0 := Int.not_lt.mpr hle
    have hnamed := hown _ _ hread (.finish 0) pid
      (by simp [SubProcess.step, State.call', State.setFile, hnot])
      (by simp [SubProcess.named, State.call', State.setFile, hle])
    exact hnamed.1 rfl
  · intro hfiles actions s hrun action pid _ hnamed
    have howned : Owned s := Runs.run_invariant (fun s action s' => Owned.step)
      (Owned.start_of others hfiles) hrun
    have hchild := howned.named hnamed
    exact ⟨hchild, howned.disjoint pid hchild⟩

end

open Separated

/-- `char* argv[256]`, and whether anything has been stored behind it. -/
structure Args where
  argv : List (Option (List UInt8))
  overrun : Bool
deriving DecidableEq

def Args.store (args : Args) (i : Nat) (arg : Option (List UInt8)) : Args :=
  if i < 256 then { args with argv := args.argv.set i arg } else { args with overrun := true }

def space : UInt8 := 32

/-- The loop that cuts `runStr` at its spaces. -/
def cutArgs : Nat → Nat → List UInt8 → Args → Args
  | 0, _, _, args => args
  | fuel + 1, i, runStr, args =>
      let arg := runStr.takeWhile (· ≠ space)
      let args := args.store i (some arg)
      if space ∈ runStr then cutArgs fuel (i + 1) (runStr.drop (arg.length + 1)) args
      else args.store (i + 1) none

/-- What `run_sub_process` gives to `execvp`. -/
def subProcessArgs (runStr : List UInt8) : Args :=
  cutArgs 256 0 runStr ⟨List.replicate 256 none, false⟩

/-- `execvp` takes the arguments up to the null pointer. -/
def Args.passed (args : Args) : Option (List (List UInt8)) :=
  if none ∈ args.argv then some ((args.argv.takeWhile Option.isSome).filterMap id) else none

/-- The loop stores the words as far as there is room, and then the null pointer. -/
theorem cutArgs_join {words front : List (List UInt8)} (hne : words ≠ [])
    (hspace : ∀ word ∈ words, space ∉ word) {fuel : Nat} (hfuel : front.length + fuel = 256)
    (overrun : Bool) :
    cutArgs fuel front.length (join space words)
        ⟨front.map some ++ List.replicate fuel none, overrun⟩ =
      if words.length ≤ fuel then
        ⟨(front ++ words).map some ++ List.replicate (fuel - words.length) none,
          overrun || words.length == fuel⟩
      else ⟨(front ++ words.take fuel).map some, overrun⟩ := by
  induction words generalizing front fuel with
  | nil => exact absurd rfl hne
  | cons first rest ih =>
      obtain ⟨hfirst, hrest⟩ := List.forall_mem_cons.mp hspace
      cases fuel with
      | zero => simp [cutArgs]
      | succ fuel =>
          have hroom : front.length < 256 := by omega
          have hstored : (front.map some ++ List.replicate (fuel + 1) none).set front.length
              (some first) = (front ++ [first]).map some ++ List.replicate fuel none := by
            rw [List.set_append_right _ _ (by simp), List.length_map, Nat.sub_self,
              List.replicate_succ, List.set_cons_zero]
            simp
          rw [cutArgs]
          simp only [takeWhile_join_cons hfirst, mem_join_cons hfirst, Args.store, if_pos hroom,
            hstored]
          by_cases hlast : rest = []
          · subst hlast
            rw [if_neg (fun h => h rfl)]
            cases fuel with
            | zero =>
                rw [if_neg (by omega)]
                simp
            | succ fuel =>
                rw [if_pos (by omega), List.set_append_right _ _ (by simp)]
                simp [List.replicate_succ]
          · rw [if_pos hlast, drop_join_cons hlast]
            have hnext := @ih (front ++ [first]) hlast hrest fuel (by simp; omega)
            rw [List.length_append, List.length_singleton] at hnext
            rw [hnext]
            simp

/-- The program gets the words of the command as its arguments, and nothing is stored behind
`argv`, exactly if there are no more than 255 of them. -/
theorem subProcessArgs_iff {words : List (List UInt8)} (hne : words ≠ [])
    (hspace : ∀ word ∈ words, space ∉ word) :
    (subProcessArgs (join space words)).passed = some words ∧
        (subProcessArgs (join space words)).overrun = false ↔ words.length ≤ 255 := by
  have hargs := @cutArgs_join words [] hne hspace 256 rfl false
  rw [List.map_nil, List.nil_append, List.length_nil] at hargs
  rw [subProcessArgs, hargs]
  split
  case isTrue hle =>
      rw [List.nil_append, Bool.false_or]
      constructor
      · rintro ⟨-, hoverrun⟩
        have hfull : words.length ≠ 256 := by simpa using hoverrun
        omega
      · intro hfew
        obtain ⟨more, hmore⟩ : ∃ more, 256 - words.length = more + 1 :=
          ⟨255 - words.length, by omega⟩
        have hall : ∀ arg ∈ words.map some, arg.isSome = true := by simp
        refine ⟨?_, beq_false_of_ne (by omega)⟩
        rw [hmore, List.replicate_succ, Args.passed, if_pos (by simp),
          List.takeWhile_append_of_pos hall, List.takeWhile_cons_of_neg (by simp), List.append_nil]
        simp
  case isFalse hmany =>
      refine iff_of_false ?_ (by omega)
      rintro ⟨hpassed, -⟩
      simp only [Args.passed, Option.ite_none_right_eq_some] at hpassed
      obtain ⟨word, -, hword⟩ := List.mem_map.mp hpassed.1
      cases hword

/-- `ls -l` -/
theorem subProcessArgs_ls :
    (subProcessArgs [108, 115, 32, 45, 108]).passed = some [[108, 115], [45, 108]] :=
  ((@subProcessArgs_iff [[108, 115], [45, 108]] (by decide) (by decide)).mpr (by decide)).1

end EventLoop.SubProcess
