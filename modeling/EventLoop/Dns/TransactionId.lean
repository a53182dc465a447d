import EventLoop.Dns.Lookup
import Mathlib.Algebra.BigOperators.Group.List.Basic
import Mathlib.Data.List.Perm.Basic

/-!
The transaction ids of the lookups. `__dns_lookup_async` copies `id` when it starts, counts
its copy up for every attempt and writes it back when it ends. Of two lookups that ask while
both are in progress, the one that ends last writes over what the other has counted.
-/

namespace EventLoop.Dns

/-- The attempts behind the value of `id` that a lookup has copied, its own attempts, and
the ids that it has put into headers. -/
structure Track where
  before : Nat
  made : Nat
  headers : List Nat
deriving DecidableEq, Repr

/-- How often the lookup's copy of `id` has been counted up. -/
def Track.count (t : Track) : Nat := t.before + t.made

def Track.attempted (localId : Nat) (t : Track) : Track :=
  { t with made := t.made + 1, headers := t.headers ++ [localId] }

/-- The resolver with a track for each of its lookups; how often `id` has been counted up;
the tracks of lookups that have ended, and the values they had used that `id` was moved
back to. -/
structure Watched where
  resolver : Resolver
  tracks : List Track
  shared : Nat
  ended : List Track
  movedBack : List Nat
deriving DecidableEq, Repr

def Watched.init : Watched := ⟨.init, [], 0, [], []⟩

/-- Lookup `i` ends, and leaves `r`. -/
def Watched.close (w : Watched) (i : Nat) (l : Lookup) (t : Track) (r : Resolver) : Watched where
  resolver := r
  tracks := w.tracks.eraseIdx i
  shared := if l.nscount = 0 then w.shared else t.count
  ended := w.ended ++ [t]
  movedBack :=
    if r.globals.id ≠ w.resolver.globals.id ∧ r.globals.id ∈ w.ended.flatMap Track.headers then
      w.movedBack ++ [r.globals.id]
    else w.movedBack

/-- What is noted of an action that leads to `r`. -/
def Watched.note (w : Watched) (r : Resolver) : Action → Watched
  | .start _ _ true | .resume _ _ => { w with resolver := r }
  | .start _ _ false => { w with resolver := r, tracks := w.tracks ++ [⟨w.shared, 0, []⟩] }
  | .attempt _ =>
      match w.resolver.running with
      | none => { w with resolver := r }
      | some i =>
          match r.lookups[i]?, w.tracks[i]? with
          | some l, some t =>
              { w with resolver := r, tracks := w.tracks.set i (t.attempted l.localId) }
          | _, _ => { w with resolver := r }
  | .finish =>
      match w.resolver.running with
      | none => { w with resolver := r }
      | some i =>
          match w.resolver.lookups[i]?, w.tracks[i]? with
          | some l, some t => w.close i l t r
          | _, _ => { w with resolver := r }

def watch (conf : Option ResolvConf) (w : Watched) (action : Action) : Option Watched :=
  (step conf w.resolver action).map (fun r => w.note r action)

/-- No two outstanding queries have one id. -/
def DistinctIds (lookups : List Lookup) : Prop :=
  ∀ (i j : Nat) (a b : Lookup), i ≠ j → lookups[i]? = some a → lookups[j]? = some b →
    a.phase = .waiting → b.phase = .waiting → a.localId ≠ b.localId

/-- The ids of outstanding queries are distinct, and `id` was never moved back to a value
that a lookup that had ended had used. -/
structure IdsDistinct (w : Watched) : Prop where
  outstanding : DistinctIds w.resolver.lookups
  counter : w.movedBack = []

/-- The queries that have been made, sent or not. -/
def Watched.attempts (w : Watched) : Nat := ((w.tracks ++ w.ended).map Track.made).sum

/-- A lookup makes a query only while no other one is in progress. -/
def AsksAlone (w : Watched) : Action → Prop
  | .attempt _ => w.resolver.lookups.length ≤ 1
  | _ => True

/-- Every lookup in progress that has made a query has counted all that were made, by whichever
lookup: its query has the id next to that of the query before. -/
def AllCounted (w : Watched) : Prop := ∀ t ∈ w.tracks, t.made ≠ 0 → t.count = w.attempts

/-- Nothing is lost: `id` has counted the queries of all lookups that have ended, those in
progress start from there, and of these no two have made queries. -/
structure InTurn (w : Watched) : Prop where
  counted : w.shared = (w.ended.map Track.made).sum
  behind : ∀ u ∈ w.ended, u.count ≤ w.shared
  copied : ∀ t ∈ w.tracks, t.before = w.shared
  single : ∀ (i j : Nat) (t u : Track), i ≠ j → w.tracks[i]? = some t → w.tracks[j]? = some u →
    t.made = 0 ∨ u.made = 0

/-- The id that stands for a count. -/
def idOf (count : Nat) : Nat := (count + 1) % 65536

/-- The id of a lookup is what its track says, and one that finds no server makes no query. -/
structure Belongs (l : Lookup) (t : Track) : Prop where
  copy : l.localId = idOf t.count
  unserved : l.nscount = 0 → t.made = 0 ∧ ∃ success, l.phase = .returned success

/-- Each lookup has its track. -/
def Copies (lookups : List Lookup) (tracks : List Track) : Prop :=
  ∀ (i : Nat) (l : Lookup) (t : Track), lookups[i]? = some l → tracks[i]? = some t → Belongs l t

/-- The tracks belong to the lookups, and ids are what the counts say. A lookup is suspended
behind a query only. -/
structure Tracked (w : Watched) : Prop where
  length : w.tracks.length = w.resolver.lookups.length
  id : w.resolver.globals.id = idOf w.shared
  copies : Copies w.resolver.lookups w.tracks
  headers : ∀ t ∈ w.tracks ++ w.ended,
    t.headers = (List.range t.made).map (fun m => idOf (t.before + m + 1))
  asked : ∀ (i : Nat) (t : Track), w.tracks[i]? = some t → w.resolver.running ≠ some i →
    t.made ≠ 0

variable {conf : Option ResolvConf} {w w' : Watched} {i : Nat} {l l' : Lookup} {t : Track}

theorem idOf_inj {a b : Nat} (ha : a < 65536) (hb : b < 65536) (h : idOf a = idOf b) : a = b := by
  rw [idOf, idOf] at h
  omega

theorem idOf_succ (count : Nat) : (idOf count + 1) % 65536 = idOf (count + 1) := by
  rw [idOf, idOf, Nat.mod_add_mod]

theorem DistinctIds.append {lookups : List Lookup} (h : DistinctIds lookups)
    (hphase : l.phase ≠ .waiting) : DistinctIds (lookups ++ [l]) := by
  have hold (i : Nat) (a : Lookup) (ha : (lookups ++ [l])[i]? = some a)
      (hwaiting : a.phase = .waiting) : lookups[i]? = some a := by
    grind
  intro i j a b hij ha hb hwaiting hwaiting'
  exact h i j a b hij (hold i a ha hwaiting) (hold j b hb hwaiting') hwaiting hwaiting'

theorem DistinctIds.set {lookups : List Lookup} (h : DistinctIds lookups)
    (hphase : l'.phase ≠ .waiting) : DistinctIds (lookups.set i l') := by
  have hold (j : Nat) (a : Lookup) (ha : (lookups.set i l')[j]? = some a)
      (hwaiting : a.phase = .waiting) : lookups[j]? = some a := by
    grind
  intro j k a b hjk ha hb hwaiting hwaiting'
  exact h j k a b hjk (hold j a ha hwaiting) (hold k b hb hwaiting') hwaiting hwaiting'

theorem DistinctIds.eraseIdx {lookups : List Lookup} (h : DistinctIds lookups) (i : Nat) :
    DistinctIds (lookups.eraseIdx i) := by
  intro j k a b hjk ha hb
  rw [List.getElem?_eraseIdx] at ha hb
  split at ha <;> split at hb
  · exact h j k a b hjk ha hb
  · exact h j (k + 1) a b (by omega) ha hb
  · exact h (j + 1) k a b (by omega) ha hb
  · exact h (j + 1) (k + 1) a b (by omega) ha hb

theorem addNameserver_id (g : Globals) (name : String) : (addNameserver g name).id = g.id := by
  rw [addNameserver]
  split <;> rfl

theorem openLine_id (g : Globals) (line : List String) : (openLine g line).id = g.id := by
  have hargs (args : List String) (g : Globals) : (args.foldl addNameserver g).id = g.id := by
    induction args generalizing g with
    | nil => rfl
    | cons name rest ih => rw [List.foldl_cons, ih, addNameserver_id]
  cases line with
  | nil => rfl
  | cons keyword args =>
      simp only [openLine]
      split <;> split <;> first | rfl | exact hargs args g

theorem firstInit_id (conf : Option ResolvConf) (g : Globals) : (firstInit conf g).id = g.id := by
  have hlines (lines : ResolvConf) (g : Globals) : (lines.foldl openLine g).id = g.id := by
    induction lines generalizing g with
    | nil => rfl
    | cons line rest ih => rw [List.foldl_cons, ih, openLine_id]
  rw [firstInit]
  split
  · cases conf with
    | none => rfl
    | some lines => exact hlines lines _
  · rfl

/-- What an action changes, as far as ids go. -/
inductive Noted (w : Watched) : Action → Watched → Prop
  | direct {r : Resolver} {serverchoice nRetries : Int}
      (hid : r.globals.id = w.resolver.globals.id) (hlookups : r.lookups = w.resolver.lookups)
      (hrunning : r.running = w.resolver.running) :
      Noted w (.start serverchoice nRetries true) { w with resolver := r }
  | opened {r : Resolver} {serverchoice nRetries : Int} {l : Lookup}
      (hid : r.globals.id = w.resolver.globals.id)
      (hlookups : r.lookups = w.resolver.lookups ++ [l])
      (hcopy : l.localId = w.resolver.globals.id) (hphase : l.phase ≠ .waiting)
      (hunserved : l.nscount = 0 → l.phase = .returned false)
      (hidle : w.resolver.running = none) (hrunning : r.running = some w.resolver.lookups.length) :
      Noted w (.start serverchoice nRetries false)
        { w with resolver := r, tracks := w.tracks ++ [⟨w.shared, 0, []⟩] }
  | attempted {r : Resolver} {outcome : Attempt} {i : Nat} {l l' : Lookup} {t : Track}
      (hrunning : w.resolver.running = some i) (hl : w.resolver.lookups[i]? = some l)
      (ht : w.tracks[i]? = some t) (hid : r.globals.id = w.resolver.globals.id)
      (hlookups : r.lookups = w.resolver.lookups.set i l')
      (hcopy : l'.localId = (l.localId + 1) % 65536) (hlooping : l.phase = .looping)
      (hnscount : l'.nscount = l.nscount) :
      Noted w (.attempt outcome)
        { w with resolver := r, tracks := w.tracks.set i (t.attempted l'.localId) }
  | resumed {r : Resolver} {reply : Reply} {i : Nat} {l l' : Lookup}
      (hl : w.resolver.lookups[i]? = some l) (hid : r.globals.id = w.resolver.globals.id)
      (hlookups : r.lookups = w.resolver.lookups.set i l') (hcopy : l'.localId = l.localId)
      (hphase : l'.phase ≠ .waiting) (hsuspended : ∀ success, l.phase ≠ .returned success)
      (hnscount : l'.nscount = l.nscount) (hidle : w.resolver.running = none) :
      Noted w (.resume i reply) { w with resolver := r }
  | closed {r : Resolver} {i : Nat} {l : Lookup} {t : Track}
      (hrunning : w.resolver.running = some i) (hl : w.resolver.lookups[i]? = some l)
      (ht : w.tracks[i]? = some t)
      (hid : r.globals.id = if l.nscount = 0 then w.resolver.globals.id else l.localId)
      (hlookups : r.lookups = w.resolver.lookups.eraseIdx i) :
      Noted w .finish (w.close i l t r)

theorem tryall_copy (l : Lookup) : l.tryall.localId = l.localId ∧ l.tryall.phase ≠ .waiting ∧
    l.tryall.nscount = l.nscount :=
  ⟨rfl, by simp [Lookup.tryall], rfl⟩

theorem resumed_copy {sdomains : Nat} {reply : Reply} (h : l.resumed sdomains reply = some l') :
    (l'.localId = l.localId ∧ l'.phase ≠ .waiting ∧ l'.nscount = l.nscount) ∧
      ∀ success, l.phase ≠ .returned success := by
  simp only [Lookup.resumed] at h
  split at h
  · rename_i hphase
    obtain rfl := Option.some.inj h
    exact ⟨tryall_copy l, by simp [hphase]⟩
  · rename_i hphase
    refine ⟨?_, by simp [hphase]⟩
    split at h
    · obtain rfl := Option.some.inj h
      exact tryall_copy l
    · obtain rfl := Option.some.inj h
      rw [Lookup.again]
      split
      · exact ⟨rfl, by simp, rfl⟩
      · exact tryall_copy l
    · obtain rfl := Option.some.inj h
      exact ⟨rfl, by simp, rfl⟩
  · simp at h
  · simp at h

theorem attemptQuery_copy {s s' : Resolver} {outcome : Attempt}
    (h : attemptQuery s i l outcome = some s') :
    s'.globals = s.globals ∧ ∃ l' : Lookup, s'.lookups = s.lookups.set i l' ∧
      l'.localId = (l.localId + 1) % 65536 ∧ l'.nscount = l.nscount := by
  cases outcome with
  | encodeFails | socketFails =>
      obtain rfl := Option.some.inj h
      exact ⟨rfl, _, rfl, rfl, rfl⟩
  | connectFails | unreachable | sent =>
      obtain ⟨server, -, rfl⟩ := Option.map_eq_some_iff.mp h
      exact ⟨rfl, _, rfl, rfl, rfl⟩

theorem watch_noted {action : Action} (hlength : w.tracks.length = w.resolver.lookups.length)
    (h : watch conf w action = some w') : Noted w action w' := by
  obtain ⟨r, hstep, rfl⟩ := Option.map_eq_some_iff.mp h
  have htrack {i : Nat} {l : Lookup} (hl : w.resolver.lookups[i]? = some l) :
      ∃ t, w.tracks[i]? = some t := by
    have hlt := (List.getElem?_eq_some_iff.mp hl).1
    exact ⟨_, List.getElem?_eq_getElem (by omega)⟩
  cases action with
  | start serverchoice nRetries direct =>
      obtain ⟨hidle, rfl⟩ := step_start hstep
      cases direct with
      | true => exact .direct (firstInit_id conf _) rfl rfl
      | false =>
          have hphase (n : Nat) :
              (if n = 0 then Phase.returned false else Phase.looping) ≠ .waiting := by
            split <;> simp
          exact .opened (firstInit_id conf _) rfl (firstInit_id conf _) (hphase _)
            (fun hnone => if_pos hnone) hidle rfl
  | attempt outcome =>
      obtain ⟨i, l, hrunning, hl, hloops, hattempt⟩ := step_attempt hstep
      rw [Lookup.loops, Bool.and_eq_true, decide_eq_true_iff] at hloops
      obtain ⟨hglobals, l', hlookups, hcopy, hnscount⟩ := attemptQuery_copy hattempt
      obtain ⟨t, ht⟩ := htrack hl
      have hlt := (List.getElem?_eq_some_iff.mp hl).1
      have hnote : w.note r (.attempt outcome) =
          { w with resolver := r, tracks := w.tracks.set i (t.attempted l'.localId) } := by
        simp only [Watched.note, hrunning, hlookups, List.getElem?_set_self hlt, ht]
      rw [hnote]
      exact .attempted hrunning hl ht (congrArg Globals.id hglobals) hlookups hcopy hloops.1
        hnscount
  | resume i reply =>
      obtain ⟨l, l', hidle, hl, hl', rfl⟩ := step_resume hstep
      obtain ⟨⟨hcopy, hphase, hnscount⟩, hsuspended⟩ := resumed_copy hl'
      exact .resumed hl rfl rfl hcopy hphase hsuspended hnscount hidle
  | finish =>
      obtain ⟨i, l, hrunning, hl, -, rfl⟩ := step_finish hstep
      obtain ⟨t, ht⟩ := htrack hl
      have hnote : w.note (finishLookup w.resolver i l) .finish =
          w.close i l t (finishLookup w.resolver i l) := by
        simp only [Watched.note, hrunning, hl, ht]
      rw [hnote]
      refine .closed hrunning hl ht ?_ rfl
      simp only [finishLookup]
      split <;> rfl

section

variable {lookups : List Lookup} {tracks : List Track} {t' : Track}

theorem Copies.append (h : Copies lookups tracks) (hlength : tracks.length = lookups.length)
    (hbelongs : Belongs l' t') : Copies (lookups ++ [l']) (tracks ++ [t']) := by
  intro j a u ha hu
  rcases Nat.lt_or_ge j lookups.length with hj | hj
  · rw [List.getElem?_append_left hj] at ha
    rw [List.getElem?_append_left (by omega)] at hu
    exact h j a u ha hu
  · rw [List.getElem?_append_right hj, List.getElem?_singleton] at ha
    rw [List.getElem?_append_right (by omega), List.getElem?_singleton, hlength] at hu
    split at ha
    · rename_i hzero
      rw [if_pos hzero] at hu
      obtain rfl := Option.some.inj ha
      obtain rfl := Option.some.inj hu
      exact hbelongs
    · cases ha

theorem Copies.set (h : Copies lookups tracks) (i : Nat) (hbelongs : Belongs l' t') :
    Copies (lookups.set i l') (tracks.set i t') := by
  intro j a u ha hu
  by_cases hij : i = j
  · subst hij
    rw [List.getElem?_set, if_pos rfl] at ha hu
    split at ha <;> split at hu
    · obtain rfl := Option.some.inj ha
      obtain rfl := Option.some.inj hu
      exact hbelongs
    all_goals simp at ha hu
  · rw [List.getElem?_set_ne hij] at ha hu
    exact h j a u ha hu

/-- A lookup may change if it still belongs to its track. -/
theorem Copies.set_lookup (h : Copies lookups tracks) (hl : lookups[i]? = some l)
    (hbelongs : ∀ u, Belongs l u → Belongs l' u) : Copies (lookups.set i l') tracks := by
  intro j a u ha hu
  by_cases hij : i = j
  · subst hij
    rw [List.getElem?_set_self (List.getElem?_eq_some_iff.mp hl).1] at ha
    obtain rfl := Option.some.inj ha
    exact hbelongs u (h i l u hl hu)
  · rw [List.getElem?_set_ne hij] at ha
    exact h j a u ha hu

theorem Copies.eraseIdx (h : Copies lookups tracks) (i : Nat) :
    Copies (lookups.eraseIdx i) (tracks.eraseIdx i) := by
  intro j a u ha hu
  rw [List.getElem?_eraseIdx] at ha hu
  split at ha
  · rename_i hlt
    rw [if_pos hlt] at hu
    exact h j a u ha hu
  · rename_i hge
    rw [if_neg hge] at hu
    exact h (j + 1) a u ha hu

end

theorem Track.attempted_headers {localId : Nat} (hcopy : localId = idOf (t.count + 1))
    (h : t.headers = (List.range t.made).map (fun m => idOf (t.before + m + 1))) :
    (t.attempted localId).headers = (List.range (t.attempted localId).made).map
      (fun m => idOf ((t.attempted localId).before + m + 1)) := by
  simp only [Track.attempted, List.range_succ, List.map_append, List.map_cons, List.map_nil, h,
    hcopy, Track.count]

theorem Tracked.open {r : Resolver} (h : Tracked w)
    (hid : r.globals.id = w.resolver.globals.id) (hlookups : r.lookups = w.resolver.lookups ++ [l])
    (hcopy : l.localId = w.resolver.globals.id)
    (hunserved : l.nscount = 0 → l.phase = .returned false) (hidle : w.resolver.running = none)
    (hrunning : r.running = some w.resolver.lookups.length) :
    Tracked { w with resolver := r, tracks := w.tracks ++ [⟨w.shared, 0, []⟩] } where
  length := by simp [hlookups, h.length]
  id := hid.trans h.id
  copies := by
    rw [hlookups]
    exact Copies.append h.copies h.length
      ⟨hcopy.trans h.id, fun hnone => ⟨rfl, false, hunserved hnone⟩⟩
  headers := by
    intro t ht
    have hheaders := h.headers
    grind
  asked := by
    intro j u hu hj
    rw [hrunning, ← h.length] at hj
    have hold : w.tracks[j]? = some u := by grind
    exact h.asked j u hold (by simp [hidle])

theorem Tracked.attempt {r : Resolver} (h : Tracked w) (hrunning : w.resolver.running = some i)
    (hl : w.resolver.lookups[i]? = some l) (ht : w.tracks[i]? = some t)
    (hid : r.globals.id = w.resolver.globals.id)
    (hlookups : r.lookups = w.resolver.lookups.set i l')
    (hcopy : l'.localId = (l.localId + 1) % 65536) (hlooping : l.phase = .looping)
    (hnscount : l'.nscount = l.nscount) :
    Tracked { w with resolver := r, tracks := w.tracks.set i (t.attempted l'.localId) } := by
  have hbelongs := h.copies i l t hl ht
  have hcopy' : l'.localId = idOf (t.count + 1) := by
    rw [hcopy, hbelongs.copy, idOf_succ]
  refine ⟨by simp [hlookups, h.length], hid.trans h.id, ?_, ?_, ?_⟩
  · rw [hlookups]
    apply Copies.set h.copies i ⟨hcopy', ?_⟩
    intro hnone
    obtain ⟨-, success, hreturned⟩ := hbelongs.unserved (hnscount ▸ hnone)
    cases hlooping.symm.trans hreturned
  · intro u hu
    rcases List.mem_append.mp hu with hu | hu
    · rcases List.mem_or_eq_of_mem_set hu with hu | rfl
      · exact h.headers u (List.mem_append_left _ hu)
      · exact Track.attempted_headers hcopy'
          (h.headers t (List.mem_append_left _ (List.mem_of_getElem? ht)))
    · exact h.headers u (List.mem_append_right _ hu)
  · intro j u hu _
    by_cases hj : i = j
    · subst hj
      rw [List.getElem?_set_self (List.getElem?_eq_some_iff.mp ht).1] at hu
      obtain rfl := Option.some.inj hu
      exact Nat.succ_ne_zero _
    · rw [List.getElem?_set_ne hj] at hu
      exact h.asked j u hu (by simp [hrunning, hj])

theorem Tracked.resume {r : Resolver} (h : Tracked w) (hl : w.resolver.lookups[i]? = some l)
    (hid : r.globals.id = w.resolver.globals.id)
    (hlookups : r.lookups = w.resolver.lookups.set i l') (hcopy : l'.localId = l.localId)
    (hsuspended : ∀ success, l.phase ≠ .returned success) (hnscount : l'.nscount = l.nscount)
    (hidle : w.resolver.running = none) : Tracked { w with resolver := r } where
  length := by simp [hlookups, h.length]
  id := hid.trans h.id
  copies := by
    rw [hlookups]
    apply Copies.set_lookup h.copies hl
    intro u hu
    refine ⟨hcopy.trans hu.copy, fun hnone => ?_⟩
    obtain ⟨-, success, hreturned⟩ := hu.unserved (hnscount ▸ hnone)
    exact absurd hreturned (hsuspended success)
  headers := h.headers
  asked := fun j u hu _ => h.asked j u hu (by simp [hidle])

theorem Tracked.close {r : Resolver} (h : Tracked w) (hrunning : w.resolver.running = some i)
    (hl : w.resolver.lookups[i]? = some l) (ht : w.tracks[i]? = some t)
    (hid : r.globals.id = if l.nscount = 0 then w.resolver.globals.id else l.localId)
    (hlookups : r.lookups = w.resolver.lookups.eraseIdx i) : Tracked (w.close i l t r) := by
  refine ⟨by simp [Watched.close, hlookups, List.length_eraseIdx, h.length], ?_, ?_, ?_, ?_⟩
  · change r.globals.id = idOf (if l.nscount = 0 then w.shared else t.count)
    rw [hid]
    split
    · exact h.id
    · exact (h.copies i l t hl ht).copy
  · change Copies r.lookups (w.tracks.eraseIdx i)
    rw [hlookups]
    exact Copies.eraseIdx h.copies i
  · intro u hu
    change u ∈ w.tracks.eraseIdx i ++ (w.ended ++ [t]) at hu
    apply h.headers
    rcases List.mem_append.mp hu with hu | hu
    · exact List.mem_append_left _ (List.mem_of_mem_eraseIdx hu)
    · rcases List.mem_append.mp hu with hu | hu
      · exact List.mem_append_right _ hu
      · rw [List.mem_singleton.mp hu]
        exact List.mem_append_left _ (List.mem_of_getElem? ht)
  · intro j u hu _
    obtain ⟨k, hk, hu⟩ := List.mem_eraseIdx_iff_getElem?.mp (List.mem_of_getElem? hu)
    exact h.asked k u hu (by simp [hrunning, hk.symm])

theorem Tracked.step {action : Action} (h : Tracked w) (hnoted : Noted w action w') :
    Tracked w' := by
  cases hnoted with
  | direct hid hlookups hrunning =>
      refine ⟨h.length.trans (congrArg _ hlookups.symm), hid.trans h.id, ?_, h.headers, ?_⟩
      · rw [hlookups]
        exact h.copies
      · rw [hrunning]
        exact h.asked
  | opened hid hlookups hcopy hphase hunserved hidle hrunning =>
      exact h.open hid hlookups hcopy hunserved hidle hrunning
  | attempted hrunning hl ht hid hlookups hcopy hlooping hnscount =>
      exact h.attempt hrunning hl ht hid hlookups hcopy hlooping hnscount
  | resumed hl hid hlookups hcopy hphase hsuspended hnscount hidle =>
      exact h.resume hl hid hlookups hcopy hsuspended hnscount hidle
  | closed hrunning hl ht hid hlookups => exact h.close hrunning hl ht hid hlookups

theorem tracked_init : Tracked .init where
  length := rfl
  id := rfl
  copies := fun _ _ _ hl => nomatch hl
  headers := fun _ ht => nomatch ht
  asked := fun _ _ ht => nomatch ht

theorem inTurn_init : InTurn .init where
  counted := rfl
  behind := fun _ hu => nomatch hu
  copied := fun _ ht => nomatch ht
  single := fun _ _ _ _ _ ht => nomatch ht

theorem sum_made_eraseIdx {tracks : List Track} (ht : tracks[i]? = some t) :
    (tracks.map Track.made).sum = t.made + ((tracks.eraseIdx i).map Track.made).sum := by
  obtain ⟨hlt, rfl⟩ := List.getElem?_eq_some_iff.mp ht
  exact ((List.getElem_cons_eraseIdx_perm hlt).map Track.made).sum_eq.symm

theorem attempts_eq (w : Watched) :
    w.attempts = (w.tracks.map Track.made).sum + (w.ended.map Track.made).sum := by
  rw [Watched.attempts, List.map_append, List.sum_append]

theorem attempts_set {r : Resolver} {localId : Nat} (ht : w.tracks[i]? = some t) :
    Watched.attempts { w with resolver := r, tracks := w.tracks.set i (t.attempted localId) } =
      w.attempts + 1 := by
  have hlt := (List.getElem?_eq_some_iff.mp ht).1
  have hset := ((List.set_perm_cons_eraseIdx hlt (t.attempted localId)).map Track.made).sum_eq
  rw [List.map_cons, List.sum_cons] at hset
  have hmade : (t.attempted localId).made = t.made + 1 := rfl
  simp only [attempts_eq, hset, sum_made_eraseIdx ht, hmade]
  omega

theorem Noted.attempts_le {action : Action} (hnoted : Noted w action w') :
    w.attempts ≤ w'.attempts := by
  cases hnoted with
  | direct | resumed => exact Nat.le_refl _
  | opened => simp [attempts_eq]
  | attempted hrunning hl ht =>
      rw [attempts_set ht]
      exact Nat.le_succ _
  | closed hrunning hl ht =>
      rw [attempts_eq, attempts_eq, sum_made_eraseIdx ht]
      simp [Watched.close]
      omega

/-- What a lookup that ends writes back: it has started from what is shared. -/
theorem InTurn.written_back (hturn : InTurn w) (h : Tracked w)
    (hl : w.resolver.lookups[i]? = some l) (ht : w.tracks[i]? = some t) :
    (if l.nscount = 0 then w.shared else t.count) = w.shared + t.made := by
  split
  · rename_i hnone
    rw [((h.copies i l t hl ht).unserved hnone).1, Nat.add_zero]
  · rw [Track.count, hturn.copied t (List.mem_of_getElem? ht)]

theorem InTurn.close {r : Resolver} (hturn : InTurn w) (h : Tracked w)
    (hrunning : w.resolver.running = some i) (hl : w.resolver.lookups[i]? = some l)
    (ht : w.tracks[i]? = some t) : InTurn (w.close i l t r) := by
  have hbefore := hturn.copied t (List.mem_of_getElem? ht)
  have hshared := hturn.written_back h hl ht
  refine ⟨?_, ?_, ?_, ?_⟩
  · change (if l.nscount = 0 then w.shared else t.count) = ((w.ended ++ [t]).map Track.made).sum
    rw [hshared, hturn.counted]
    simp
  · change ∀ u ∈ w.ended ++ [t], u.count ≤ (if l.nscount = 0 then w.shared else t.count)
    rw [hshared, List.forall_mem_append, List.forall_mem_singleton, Track.count, hbefore]
    exact ⟨fun u hu => Nat.le_add_right_of_le (hturn.behind u hu), Nat.le_refl _⟩
  · intro u hu
    change u.before = (if l.nscount = 0 then w.shared else t.count)
    rw [hshared, hturn.copied u (List.mem_of_mem_eraseIdx hu)]
    -- a lookup that is still in progress has asked, so this one has not
    obtain ⟨k, hk, hu⟩ := List.mem_eraseIdx_iff_getElem?.mp hu
    rcases hturn.single i k t u hk.symm ht hu with hnone | hnone
    · rw [hnone, Nat.add_zero]
    · exact absurd hnone (h.asked k u hu (by simp [hrunning, hk.symm]))
  · intro j k u v hjk hu hv
    change (w.tracks.eraseIdx i)[j]? = some u at hu
    change (w.tracks.eraseIdx i)[k]? = some v at hv
    rw [List.getElem?_eraseIdx] at hu hv
    split at hu <;> split at hv
    all_goals exact hturn.single _ _ u v (by omega) hu hv

/-- A query that is made alone keeps what is counted. -/
theorem InTurn.step {action : Action} (hturn : InTurn w) (h : Tracked w)
    (halone : AsksAlone w action) (hnoted : Noted w action w') : InTurn w' := by
  cases hnoted with
  | direct | resumed => exact ⟨hturn.counted, hturn.behind, hturn.copied, hturn.single⟩
  | opened =>
      refine ⟨hturn.counted, hturn.behind, ?_, ?_⟩
      · exact List.forall_mem_append.mpr ⟨hturn.copied, by simp⟩
      · intro j k t u hjk ht hu
        have hsingle := hturn.single
        grind
  | @attempted r outcome i l l' t hrunning hl ht =>
      rw [AsksAlone, ← h.length] at halone
      refine ⟨hturn.counted, hturn.behind, ?_, ?_⟩
      · intro u hu
        rcases List.mem_or_eq_of_mem_set hu with hu | rfl
        · exact hturn.copied u hu
        · exact hturn.copied t (List.mem_of_getElem? ht)
      · intro j k t u hjk ht hu
        have hj := (List.getElem?_eq_some_iff.mp ht).1
        have hk := (List.getElem?_eq_some_iff.mp hu).1
        rw [List.length_set] at hj hk
        omega
  | closed hrunning hl ht => exact hturn.close h hrunning hl ht

theorem InTurn.allCounted (h : InTurn w) : AllCounted w := by
  intro t hmem hmade
  obtain ⟨i, ht⟩ := List.mem_iff_getElem?.mp hmem
  have hothers : ((w.tracks.eraseIdx i).map Track.made).sum = 0 := by
    apply List.sum_eq_zero
    intro made hmem
    obtain ⟨u, hu, rfl⟩ := List.mem_map.mp hmem
    obtain ⟨j, hj, hu⟩ := List.mem_eraseIdx_iff_getElem?.mp hu
    exact (h.single i j t u hj.symm ht hu).resolve_left hmade
  rw [attempts_eq, sum_made_eraseIdx ht, hothers, Track.count, h.copied t hmem, h.counted]
  omega

/-- A query that is not made alone is counted in no copy but its own. -/
theorem asksAlone_of_allCounted {action : Action} (h : Tracked w) (hcounted : AllCounted w)
    (hcounted' : AllCounted w') (hnoted : Noted w action w') : AsksAlone w action := by
  cases hnoted with
  | direct | opened | resumed | closed => trivial
  | @attempted r outcome i l l' t hrunning hl ht =>
      rw [AsksAlone, ← h.length]
      by_contra hmore
      obtain ⟨j, hj, hji⟩ : ∃ j < w.tracks.length, j ≠ i := by
        rcases Nat.eq_zero_or_pos i with hi | hi
        · exact ⟨1, by omega, by omega⟩
        · exact ⟨0, by omega, by omega⟩
      have hu := List.getElem?_eq_getElem hj
      have hasked := h.asked j _ hu (by simp [hrunning, hji.symm])
      have hbefore := hcounted _ (List.mem_of_getElem? hu) hasked
      have hafter := hcounted' _
        (List.mem_of_getElem? ((List.getElem?_set_ne hji.symm).trans hu)) hasked
      rw [hbefore, attempts_set ht] at hafter
      omega

/-- Every query of a run gets the id next to that of the query before exactly if each is made
while no other lookup is in progress. -/
theorem all_counted_iff (conf : Option ResolvConf) {actions : List Action} {w : Watched}
    (hrun : Runs.run (watch conf) .init actions = some w) :
    (∀ before after mid, actions = before ++ after →
        Runs.run (watch conf) .init before = some mid → AllCounted mid) ↔
      Runs.Guarded (watch conf) AsksAlone .init actions := by
  refine @Runs.forall_prefix_seen_iff _ _ (watch conf) AsksAlone
    (fun w => Tracked w ∧ InTurn w) AllCounted ?_ ?_ ?_ .init w actions
    ⟨tracked_init, inTurn_init⟩ hrun
  · exact fun w h => h.2.allCounted
  · rintro w action w' ⟨h, hturn⟩ halone hstep
    have hnoted := watch_noted h.length hstep
    exact ⟨h.step hnoted, hturn.step h halone hnoted⟩
  · rintro w action w' ⟨h, hturn⟩ hstep hcounted
    exact asksAlone_of_allCounted h hturn.allCounted hcounted (watch_noted h.length hstep)

/-- While nothing is lost, a lookup that ends leaves an id that none before it has used. -/
theorem InTurn.not_movedBack (h : Tracked w) (hturn : InTurn w) (hfew : w.attempts < 65536)
    (hl : w.resolver.lookups[i]? = some l) (ht : w.tracks[i]? = some t) :
    l.localId = w.resolver.globals.id ∨ l.localId ∉ w.ended.flatMap Track.headers := by
  rw [(h.copies i l t hl ht).copy, h.id]
  have hcount : t.count = w.shared + t.made := by
    rw [Track.count, hturn.copied t (List.mem_of_getElem? ht)]
  rcases Nat.eq_zero_or_pos t.made with hmade | hmade
  · exact .inl (by rw [hcount, hmade, Nat.add_zero])
  · refine .inr (fun hmem => ?_)
    obtain ⟨u, hu, hheader⟩ := List.mem_flatMap.mp hmem
    rw [h.headers u (List.mem_append_right _ hu), List.mem_map] at hheader
    obtain ⟨m, hm, hid⟩ := hheader
    have hbound : t.count ≤ w.attempts := by
      rw [attempts_eq, sum_made_eraseIdx ht, hcount, hturn.counted]
      omega
    have hbehind := hturn.behind u hu
    rw [Track.count] at hbehind
    rw [List.mem_range] at hm
    have hsame := idOf_inj (by omega) (by omega) hid
    omega

theorem IdsDistinct.step {action : Action} (hdistinct : IdsDistinct w) (h : Tracked w)
    (hturn : InTurn w) (hfew : w.attempts < 65536) (halone : AsksAlone w action)
    (hnoted : Noted w action w') : IdsDistinct w' := by
  obtain ⟨houtstanding, hcounter⟩ := hdistinct
  cases hnoted with
  | direct hid hlookups => exact ⟨hlookups ▸ houtstanding, hcounter⟩
  | opened hid hlookups hcopy hphase => exact ⟨hlookups ▸ houtstanding.append hphase, hcounter⟩
  | attempted hrunning hl ht hid hlookups =>
      refine ⟨?_, hcounter⟩
      intro j k a b hjk ha hb
      have hj := (List.getElem?_eq_some_iff.mp ha).1
      have hk := (List.getElem?_eq_some_iff.mp hb).1
      change j < (Resolver.lookups _).length at hj
      change k < (Resolver.lookups _).length at hk
      rw [hlookups, List.length_set] at hj hk
      rw [AsksAlone] at halone
      omega
  | resumed hl hid hlookups hcopy hphase =>
      exact ⟨hlookups ▸ houtstanding.set hphase, hcounter⟩
  | @closed r i l t hrunning hl ht hid hlookups =>
      refine ⟨?_, ?_⟩
      · change DistinctIds r.lookups
        rw [hlookups]
        exact houtstanding.eraseIdx i
      · apply (if_neg ?_).trans hcounter
        rintro ⟨hmoved, hused⟩
        rw [hid] at hmoved hused
        split at hmoved
        · exact hmoved rfl
        · rename_i hserved
          rw [if_neg hserved] at hused
          rcases hturn.not_movedBack h hfew hl ht with hsame | hnew
          · exact hmoved hsame
          · exact hnew hused

/-- Where every query is made while no other lookup is in progress, the ids of outstanding
queries are distinct and `id` does not go back to one that a lookup that has ended has used. -/
theorem ids_distinct (conf : Option ResolvConf) {actions : List Action} {w : Watched}
    (hrun : Runs.run (watch conf) .init actions = some w) (hfew : w.attempts < 65536)
    (halone : Runs.Guarded (watch conf) AsksAlone .init actions) : IdsDistinct w := by
  have hkept : Tracked w ∧ InTurn w ∧ (w.attempts < 65536 → IdsDistinct w) := by
    apply @Runs.guarded_run_invariant _ _ (watch conf) AsksAlone
      (fun w => Tracked w ∧ InTurn w ∧ (w.attempts < 65536 → IdsDistinct w)) ?_ .init w actions
      ⟨tracked_init, inTurn_init, fun _ => ⟨fun _ _ _ _ _ ha => (nomatch ha), rfl⟩⟩ halone hrun
    rintro s action s' ⟨htracked, hturn, hdistinct⟩ hguard hstep
    have hnoted := watch_noted htracked.length hstep
    refine ⟨htracked.step hnoted, hturn.step htracked hguard hnoted, fun hfew' => ?_⟩
    have hfew := Nat.lt_of_le_of_lt hnoted.attempts_le hfew'
    exact (hdistinct hfew).step htracked hturn hfew hguard hnoted
  exact hkept.2.2 hfew

def oneServer : Option ResolvConf := some [["nameserver", "10.0.0.1"]]

/-- The second lookup starts when the first has ended. -/
def oneAfterAnother : List Action :=
  [.start 0 4 false, .attempt .sent, .resume 0 .answered, .finish, .start 0 4 false,
   .attempt .sent, .resume 0 .timedOut, .attempt .sent, .resume 0 .answered, .finish]

theorem oneAfterAnother_distinct :
    ∃ w, Runs.run (watch oneServer) .init oneAfterAnother = some w ∧ IdsDistinct w := by
  have hone {w : Watched} (h : w.resolver.lookups.length = 1) : AsksAlone w (.attempt .sent) :=
    Nat.le_of_eq h
  have hguard : Runs.Guarded (watch oneServer) AsksAlone .init oneAfterAnother := by
    apply Runs.Guarded.cons trivial rfl
    apply Runs.Guarded.cons (hone rfl) rfl
    apply Runs.Guarded.cons trivial rfl
    apply Runs.Guarded.cons trivial rfl
    apply Runs.Guarded.cons trivial rfl
    apply Runs.Guarded.cons (hone rfl) rfl
    apply Runs.Guarded.cons trivial rfl
    apply Runs.Guarded.cons (hone rfl) rfl
    apply Runs.Guarded.cons trivial rfl
    apply Runs.Guarded.cons trivial rfl
    trivial
  exact ⟨_, rfl, ids_distinct oneServer rfl (by decide) hguard⟩

/-- Two lookups that overlap from the start put the same id into their first queries; and the one
that ends last, with fewer queries, moves `id` back to one that the other has used. -/
theorem overlapping_lookups_share_id :
    (∃ w, Runs.run (watch oneServer) .init
        [.start 0 4 false, .attempt .sent, .start 0 4 false, .attempt .sent] = some w ∧
      w.attempts < 65536 ∧ ¬ DistinctIds w.resolver.lookups) ∧
    ∃ w, Runs.run (watch oneServer) .init
        [.start 0 4 false, .attempt .sent, .start 0 4 false, .attempt .sent, .resume 0 .timedOut,
         .attempt .sent, .resume 0 .answered, .finish, .resume 0 .answered, .finish] = some w ∧
      w.attempts < 65536 ∧ w.movedBack = [2] := by
  constructor
  · refine ⟨_, rfl, by decide, ?_⟩
    exact fun h => h 0 1 _ _ (by decide) rfl rfl rfl rfl rfl
  · exact ⟨_, rfl, by decide, rfl⟩

end EventLoop.Dns
