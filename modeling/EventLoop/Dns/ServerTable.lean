import EventLoop.Dns.Lookup
import EventLoop.Lib.SavedCell

/-!
Slot 0 of `__nameserver` is a cell that every lookup saves, a lookup with
`serverchoice` 2 overwrites, and every lookup puts back when it ends. Whether
queries go where they should, and whether the table is whole again at the end,
depends on how the lookups overlap.
-/

namespace EventLoop.Dns

variable (conf : Option ResolvConf)

/-- The table that `__open_nameservers` loads. -/
def loaded : Vector (Option String) maxServers := (openNameservers conf .init).nameserver

/-- The servers that a `serverchoice` stands for. -/
def Denotes (serverchoice : Int) (server : String) : Prop :=
  if serverchoice = 1 then (loaded conf).get 0 = some server
  else if serverchoice = 2 then (loaded conf).get 1 = some server
  else some server ∈ (loaded conf).toList

/-- Queries went only to the servers their lookups ask for, and the table is as
loaded while no lookup is in progress. -/
structure TableUndisturbed (s : Resolver) : Prop where
  queries : ∀ query ∈ s.queries, Denotes conf query.1 query.2
  table : s.lookups = [] → s.globals.firstInitNameserver = false →
    s.globals.nameserver = loaded conf

/-- What a lookup writes into slot 0. -/
def slotWrite (serverchoice : Int) : Option (Option String) :=
  if serverchoice = 2 then some ((loaded conf).get 1) else none

def Lookup.save (l : Lookup) : SavedCell.Save (Option String) :=
  ⟨slotWrite conf l.serverchoice, l.nameserverBackup⟩

/-- The table is as loaded but for slot 0, which is consistent with `lookups`. -/
def SlotsSaved (nameserver : Vector (Option String) maxServers) (lookups : List Lookup) : Prop :=
  nameserver = (loaded conf).set 0 (nameserver.get 0) zero_lt_maxServers ∧
    SavedCell.Consistent ((loaded conf).get 0) (lookups.map (Lookup.save conf))
      (nameserver.get 0)

structure Invariant (s : Resolver) : Prop where
  fresh : s.globals.firstInitNameserver = true →
    s.globals = .init ∧ s.lookups = [] ∧ s.queries = []
  slots : s.globals.firstInitNameserver = false →
    SlotsSaved conf s.globals.nameserver s.lookups
  single : ∀ l ∈ s.lookups, l.serverchoice = 1 ∨ l.serverchoice = 2 →
    l.nscount = 1 ∧ l.localNs = 0
  queries : ∀ query ∈ s.queries, Denotes conf query.1 query.2

/-- A lookup for the first server sends only while no lookup for the second is in
progress, and a lookup ends only when an earlier one for the second server is in
progress, or no later lookup at all, or neither it nor a later one is for the second. -/
def Ordered (s : Resolver) : Action → Prop
  | .attempt .sent => ∀ i l, s.running = some i → s.lookups[i]? = some l →
      l.serverchoice = 1 → ∀ other ∈ s.lookups, other.serverchoice ≠ 2
  | .finish => ∀ i l, s.running = some i → s.lookups[i]? = some l →
      (∃ earlier ∈ s.lookups.take i, earlier.serverchoice = 2) ∨ s.lookups.drop (i + 1) = [] ∨
        l.serverchoice ≠ 2 ∧ ∀ later ∈ s.lookups.drop (i + 1), later.serverchoice ≠ 2
  | _ => True

/-- The order matters only where the first two servers differ. -/
def Undisturbing (s : Resolver) (action : Action) : Prop :=
  (loaded conf).get 0 = (loaded conf).get 1 ∨ Ordered s action

variable {conf}

theorem slotWrite_single (lookups : List Lookup) :
    ∀ write ∈ (lookups.map (Lookup.save conf)).map SavedCell.Save.write,
      write = none ∨ write = some ((loaded conf).get 1) := by
  intro write hwrite
  obtain ⟨save, hsave, rfl⟩ := List.mem_map.mp hwrite
  obtain ⟨l, -, rfl⟩ := List.mem_map.mp hsave
  simp only [Lookup.save, slotWrite]
  split
  · exact .inr rfl
  · exact .inl rfl

/-- Behind a lookup for the second server slot 0 holds that server. -/
theorem visible_second {base : Option String} {lookups : List Lookup}
    (h : base = (loaded conf).get 1 ∨ ∃ l ∈ lookups, l.serverchoice = 2) :
    SavedCell.visible base ((lookups.map (Lookup.save conf)).map SavedCell.Save.write) =
      (loaded conf).get 1 := by
  apply SavedCell.visible_of_single (slotWrite_single lookups)
  rcases h with hbase | ⟨l, hl, hchoice⟩
  · exact .inl hbase
  · apply Or.inr
    apply List.mem_map.mpr
    exact ⟨l.save conf, List.mem_map_of_mem hl, by simp [Lookup.save, slotWrite, hchoice]⟩

/-- Lookups that are not for the second server leave slot 0 alone. -/
theorem visible_unwritten {base : Option String} {lookups : List Lookup}
    (h : ∀ l ∈ lookups, l.serverchoice ≠ 2) :
    SavedCell.visible base ((lookups.map (Lookup.save conf)).map SavedCell.Save.write) = base := by
  apply SavedCell.visible_of_none
  intro write hwrite
  obtain ⟨save, hsave, rfl⟩ := List.mem_map.mp hwrite
  obtain ⟨l, hl, rfl⟩ := List.mem_map.mp hsave
  exact if_neg (h l hl)

theorem SlotsSaved.cell_second {nameserver : Vector (Option String) maxServers}
    {lookups : List Lookup} (h : SlotsSaved conf nameserver lookups)
    (hsecond : ∃ l ∈ lookups, l.serverchoice = 2) :
    nameserver.get 0 = (loaded conf).get 1 :=
  h.2.cell_eq.trans (visible_second (.inr hsecond))

theorem SlotsSaved.cell_first {nameserver : Vector (Option String) maxServers}
    {lookups : List Lookup} (h : SlotsSaved conf nameserver lookups)
    (hnone : ∀ l ∈ lookups, l.serverchoice ≠ 2) :
    nameserver.get 0 = (loaded conf).get 0 :=
  h.2.cell_eq.trans (visible_unwritten hnone)

/-- Whoever is in progress, slot 0 holds one of the first two servers. -/
theorem SlotsSaved.cell_mem {nameserver : Vector (Option String) maxServers}
    {lookups : List Lookup} (h : SlotsSaved conf nameserver lookups) :
    nameserver.get 0 ∈ (loaded conf).toList := by
  by_cases hsecond : ∃ l ∈ lookups, l.serverchoice = 2
  · rw [h.cell_second hsecond]
    exact Vector.mem_toList_iff.mpr (Vector.getElem_mem _)
  · rw [h.cell_first (by simpa using hsecond)]
    exact Vector.mem_toList_iff.mpr (Vector.getElem_mem _)

theorem slotsSaved_set {cell : Option String} {lookups : List Lookup}
    (h : SavedCell.Consistent ((loaded conf).get 0) (lookups.map (Lookup.save conf)) cell) :
    SlotsSaved conf ((loaded conf).set 0 cell) lookups := by
  have hcell : ((loaded conf).set 0 cell).get 0 = cell := Vector.getElem_set_self _
  rw [SlotsSaved, hcell]
  exact ⟨rfl, h⟩

/-- Only slot 0 is ever written. -/
theorem SlotsSaved.set {nameserver : Vector (Option String) maxServers} {lookups : List Lookup}
    (h : SlotsSaved conf nameserver lookups) (cell : Option String) :
    nameserver.set 0 cell = (loaded conf).set 0 cell := by
  rw [h.1, Vector.set_set]

theorem SlotsSaved.get_of_ne_zero {nameserver : Vector (Option String) maxServers}
    {lookups : List Lookup} (h : SlotsSaved conf nameserver lookups) {k : Fin maxServers}
    (hk : k ≠ 0) : nameserver.get k = (loaded conf).get k := by
  rw [h.1]
  exact Vector.getElem_set_ne _ _ (fun heq => hk (Fin.ext heq.symm))

theorem SlotsSaved.eq_loaded {nameserver : Vector (Option String) maxServers}
    (h : SlotsSaved conf nameserver []) : nameserver = loaded conf := by
  rw [h.1, h.cell_first (by simp)]
  exact Vector.set_getElem_self _

theorem init_invariant : Invariant conf .init where
  fresh := fun _ => ⟨rfl, rfl, rfl⟩
  slots := fun h => absurd h (by decide)
  single := by simp [Resolver.init]
  queries := by simp [Resolver.init]

theorem Invariant.tableUndisturbed {s : Resolver} (h : Invariant conf s) :
    TableUndisturbed conf s where
  queries := h.queries
  table := by
    intro hempty hopened
    have hslots := h.slots hopened
    rw [hempty] at hslots
    exact hslots.eq_loaded

theorem Invariant.opened {s : Resolver} (h : Invariant conf s) {i : Nat} {l : Lookup}
    (hl : s.lookups[i]? = some l) : s.globals.firstInitNameserver = false := by
  cases hfresh : s.globals.firstInitNameserver with
  | false => rfl
  | true => simp [(h.fresh hfresh).2.1] at hl

/-- Behind `if(first_init_nameserver)` the table is loaded. -/
theorem Invariant.firstInit {s : Resolver} (h : Invariant conf s) :
    (firstInit conf s.globals).firstInitNameserver = false ∧
      SlotsSaved conf (firstInit conf s.globals).nameserver s.lookups := by
  unfold Dns.firstInit
  cases hfresh : s.globals.firstInitNameserver with
  | false => exact ⟨by simpa using hfresh, h.slots hfresh⟩
  | true =>
      obtain ⟨hglobals, hlookups, -⟩ := h.fresh hfresh
      rw [hlookups, hglobals, if_pos rfl]
      refine ⟨rfl, ?_, ?_⟩
      · exact (Vector.set_getElem_self _).symm
      · exact SavedCell.consistent_nil _

theorem startLookup_invariant {s : Resolver} (h : Invariant conf s) (serverchoice nRetries : Int)
    (direct : Bool) : Invariant conf (startLookup conf s serverchoice nRetries direct) := by
  obtain ⟨hopened, hslots⟩ := h.firstInit
  cases direct with
  | true =>
      constructor
      · intro hfresh
        exact absurd hfresh (by simp [startLookup, hopened])
      · exact fun _ => hslots
      · exact h.single
      · exact h.queries
  | false =>
      constructor
      · intro hfresh
        exact absurd hfresh (by simp [startLookup, hopened])
      · intro _
        have hstart := hslots.2.start (slotWrite conf serverchoice)
        have hslot : (if serverchoice = 2 then
            (firstInit conf s.globals).nameserver.set 0
              ((firstInit conf s.globals).nameserver.get 1)
            else (firstInit conf s.globals).nameserver) =
            (loaded conf).set 0 ((slotWrite conf serverchoice).getD
              ((firstInit conf s.globals).nameserver.get 0)) := by
          unfold slotWrite
          split
          · rw [hslots.set, hslots.get_of_ne_zero (by decide)]
            rfl
          · exact hslots.1
        change SlotsSaved conf (if serverchoice = 2 then _ else _) (s.lookups ++ [_])
        rw [hslot]
        apply slotsSaved_set
        rw [List.map_append]
        exact hstart
      · intro l hl
        rcases List.mem_append.mp hl with hold | hnew
        · exact h.single l hold
        · obtain rfl := List.mem_singleton.mp hnew
          intro hchoice
          simp only [if_pos hchoice, Nat.mod_one, and_self]
      · exact h.queries

/-- The part of a lookup that its queries and its end depend on is settled when it starts. -/
structure SameRequest (l l' : Lookup) : Prop where
  nameserverBackup : l'.nameserverBackup = l.nameserverBackup
  serverchoice : l'.serverchoice = l.serverchoice
  single : l.nscount = 1 ∧ l.localNs = 0 → l'.nscount = 1 ∧ l'.localNs = 0

/-- A lookup moves on without a change to what it asked for and what it saved. -/
theorem Invariant.replace {s : Resolver} (h : Invariant conf s) {i : Nat} {l l' : Lookup}
    (hl : s.lookups[i]? = some l) (running : Option Nat) (hsame : SameRequest l l') :
    Invariant conf { s with lookups := s.lookups.set i l', running := running } where
  fresh := fun hfresh => absurd hfresh (by simp [h.opened hl])
  slots := by
    intro hopened
    have hslots := h.slots hopened
    have hmap : (s.lookups.set i l').map (Lookup.save conf) =
        s.lookups.map (Lookup.save conf) := by
      obtain ⟨hi, hget⟩ := List.getElem?_eq_some_iff.mp hl
      have hsave : l'.save conf = l.save conf := by
        rw [Lookup.save, Lookup.save, hsame.serverchoice, hsame.nameserverBackup]
      have hself : l.save conf =
          (s.lookups.map (Lookup.save conf)).get ⟨i, by simpa using hi⟩ := by
        simp [hget]
      rw [List.map_set, hsave, hself]
      exact List.set_getElem_self _
    refine ⟨hslots.1, ?_⟩
    rw [hmap]
    exact hslots.2
  single := by
    intro other hother
    rcases List.mem_or_eq_of_mem_set hother with hold | rfl
    · exact h.single other hold
    · intro hchoice
      rw [hsame.serverchoice] at hchoice
      exact hsame.single (h.single l (List.mem_of_getElem? hl) hchoice)
  queries := h.queries

theorem tryall_sameRequest (l : Lookup) : SameRequest l l.tryall where
  nameserverBackup := rfl
  serverchoice := rfl
  single := by
    rintro ⟨hcount, -⟩
    exact ⟨hcount, by simp [Lookup.tryall, hcount, Nat.mod_one]⟩

theorem again_sameRequest (l : Lookup) (sdomains : Nat) :
    SameRequest l (l.again sdomains) := by
  rw [Lookup.again]
  split
  · exact ⟨rfl, rfl, id⟩
  · exact tryall_sameRequest l

theorem resumed_sameRequest {l l' : Lookup} {sdomains : Nat} {reply : Reply}
    (h : l.resumed sdomains reply = some l') : SameRequest l l' := by
  unfold Lookup.resumed at h
  cases hphase : l.phase with
  | looping => simp [hphase] at h
  | returned success => simp [hphase] at h
  | sleeping =>
      obtain rfl : l.tryall = l' := by simpa [hphase] using h
      exact tryall_sameRequest l
  | waiting =>
      cases reply with
      | timedOut =>
          obtain rfl : l.tryall = l' := by simpa [hphase] using h
          exact tryall_sameRequest l
      | refused =>
          obtain rfl : l.again sdomains = l' := by simpa [hphase] using h
          exact again_sameRequest l sdomains
      | answered =>
          obtain rfl : { l with phase := .returned true } = l' := by simpa [hphase] using h
          exact ⟨rfl, rfl, id⟩

/-- The server a lookup is about to send to, against the ones it asks for. -/
theorem denotes_iff {s : Resolver} (h : Invariant conf s) {i : Nat} {l : Lookup}
    (hl : s.lookups[i]? = some l) {server : String}
    (hserver : s.globals.nameserver.toList.getD l.localNs none = some server) :
    Denotes conf l.serverchoice server ↔ (loaded conf).get 0 = (loaded conf).get 1 ∨
      (l.serverchoice = 1 → ∀ other ∈ s.lookups, other.serverchoice ≠ 2) := by
  have hslots := h.slots (h.opened hl)
  have hmem := List.mem_of_getElem? hl
  have hzero (hchoice : l.serverchoice = 1 ∨ l.serverchoice = 2) :
      s.globals.nameserver.get 0 = some server := by
    rw [(h.single l hmem hchoice).2] at hserver
    have hentry : s.globals.nameserver[0] = some server := by simpa using hserver
    exact hentry
  unfold Denotes
  by_cases hfirst : l.serverchoice = 1
  · rw [if_pos hfirst, ← hzero (.inl hfirst)]
    by_cases hsecond : ∃ other ∈ s.lookups, other.serverchoice = 2
    · rw [hslots.cell_second hsecond]
      obtain ⟨other, hother, hchoice⟩ := hsecond
      constructor
      · exact .inl
      · rintro (hsame | hnone)
        · exact hsame
        · exact absurd hchoice (hnone hfirst other hother)
    · have hnone : ∀ other ∈ s.lookups, other.serverchoice ≠ 2 := by simpa using hsecond
      exact iff_of_true (hslots.cell_first hnone).symm (.inr (fun _ => hnone))
  · by_cases hsecond : l.serverchoice = 2
    · rw [if_neg hfirst, if_pos hsecond, ← hzero (.inr hsecond)]
      exact iff_of_true (hslots.cell_second ⟨l, hmem, hsecond⟩).symm
        (.inr (fun hone => absurd hone hfirst))
    · rw [if_neg hfirst, if_neg hsecond]
      apply iff_of_true _ (.inr (fun hone => absurd hone hfirst))
      have hentry : some server ∈ s.globals.nameserver.toList := by
        rw [List.getD_eq_getElem?_getD] at hserver
        cases hget : s.globals.nameserver.toList[l.localNs]? with
        | none => simp [hget] at hserver
        | some entry =>
            obtain rfl : entry = some server := by simpa [hget] using hserver
            exact List.mem_of_getElem? hget
      rw [hslots.1, Vector.toList_set] at hentry
      rcases List.mem_or_eq_of_mem_set hentry with hold | hcell
      · exact hold
      · rw [hcell]
        exact hslots.cell_mem

theorem attemptQuery_invariant_iff {s s' : Resolver} (h : Invariant conf s) {i : Nat}
    {l : Lookup} (hrunning : s.running = some i) (hl : s.lookups[i]? = some l)
    {outcome : Attempt} (hstep : attemptQuery s i l outcome = some s') :
    Invariant conf s' ↔ Undisturbing conf s (.attempt outcome) := by
  have hnext (retries : Nat) (phase : Phase) :
      SameRequest l { l with localId := (l.localId + 1) % 65536, retries, phase } :=
    ⟨rfl, rfl, id⟩
  cases outcome with
  | encodeFails =>
      obtain rfl := Option.some.inj hstep
      exact iff_of_true (h.replace hl s.running (hnext _ _)) (.inr trivial)
  | socketFails =>
      obtain rfl := Option.some.inj hstep
      exact iff_of_true (h.replace hl s.running (hnext _ _)) (.inr trivial)
  | connectFails =>
      obtain ⟨server, -, rfl⟩ := Option.map_eq_some_iff.mp hstep
      exact iff_of_true (h.replace hl s.running (hnext _ _)) (.inr trivial)
  | unreachable =>
      obtain ⟨server, -, rfl⟩ := Option.map_eq_some_iff.mp hstep
      exact iff_of_true (h.replace hl none (hnext _ _)) (.inr trivial)
  | sent =>
      obtain ⟨server, hserver, rfl⟩ := Option.map_eq_some_iff.mp hstep
      have hmoved := h.replace hl none (hnext l.retries .waiting)
      have hdenotes := denotes_iff h hl hserver
      constructor
      · intro hafter
        have hsent := hafter.queries (l.serverchoice, server)
          (List.mem_append_right _ (List.mem_singleton_self _))
        rcases hdenotes.mp hsent with hsame | hnone
        · exact .inl hsame
        · apply Or.inr
          intro j l' hj hl'
          obtain rfl : i = j := Option.some.inj (hrunning.symm.trans hj)
          obtain rfl : l = l' := Option.some.inj (hl.symm.trans hl')
          exact hnone
      · intro hguard
        have hsent : Denotes conf l.serverchoice server :=
          hdenotes.mpr (hguard.imp_right (fun horder => horder i l hrunning hl))
        refine ⟨fun hfresh => absurd hfresh (by simp [h.opened hl]), hmoved.slots,
          hmoved.single, ?_⟩
        intro query hquery
        rcases List.mem_append.mp hquery with hold | hnew
        · exact h.queries query hold
        · obtain rfl := List.mem_singleton.mp hnew
          exact hsent

/-- Putting back what `l` saved keeps the slot consistent with the lookups that remain. -/
theorem finish_kept_iff {front back : List Lookup} {l : Lookup} {cell : Option String}
    (h : SavedCell.Consistent ((loaded conf).get 0)
      ((front ++ l :: back).map (Lookup.save conf)) cell) :
    SavedCell.Consistent ((loaded conf).get 0) ((front ++ back).map (Lookup.save conf))
        l.nameserverBackup ↔
      (loaded conf).get 0 = (loaded conf).get 1 ∨ (∃ earlier ∈ front, earlier.serverchoice = 2) ∨
        back = [] ∨ l.serverchoice ≠ 2 ∧ ∀ later ∈ back, later.serverchoice ≠ 2 := by
  rw [List.map_append, List.map_cons] at h
  have hsaved : l.nameserverBackup = _ := h.saved_eq _ _ _ rfl
  have hiff : SavedCell.Consistent _ _ l.nameserverBackup ↔
      _ ∨ (slotWrite conf l.serverchoice).getD l.nameserverBackup = l.nameserverBackup ∧ _ :=
    h.finish_iff
  rw [List.map_append, hiff, List.map_eq_nil_iff]
  by_cases hback : back = []
  · exact iff_of_true (.inl hback) (.inr (.inr (.inl hback)))
  · simp only [hback, false_or]
    by_cases hearlier : ∃ earlier ∈ front, earlier.serverchoice = 2
    · -- an earlier lookup has written the same server already
      rw [visible_second (.inr hearlier)] at hsaved
      refine iff_of_true ⟨?_, ?_⟩ (.inr (.inl hearlier))
      · rw [hsaved, slotWrite]
        split <;> rfl
      · exact (visible_second (.inl hsaved)).trans hsaved.symm
    · rw [visible_unwritten (by simpa using hearlier)] at hsaved
      simp only [hearlier, false_or]
      constructor
      · rintro ⟨hwrite, hvisible⟩
        by_cases hchoice : l.serverchoice = 2
        · rw [slotWrite, if_pos hchoice, hsaved] at hwrite
          exact .inl hwrite.symm
        · by_cases hlater : ∃ later ∈ back, later.serverchoice = 2
          · rw [visible_second (.inr hlater)] at hvisible
            exact .inl (hvisible.trans hsaved).symm
          · exact .inr ⟨hchoice, by simpa using hlater⟩
      · rintro (hsame | ⟨hchoice, hlater⟩)
        · rw [hsame] at hsaved
          refine ⟨?_, (visible_second (.inl hsaved)).trans hsaved.symm⟩
          rw [hsaved, slotWrite]
          split <;> rfl
        · exact ⟨by rw [slotWrite, if_neg hchoice]; rfl, visible_unwritten hlater⟩

theorem finishLookup_invariant_iff {s : Resolver} (h : Invariant conf s) {i : Nat} {l : Lookup}
    (hrunning : s.running = some i) (hl : s.lookups[i]? = some l) :
    Invariant conf (finishLookup s i l) ↔ Undisturbing conf s .finish := by
  have hopened := h.opened hl
  have hslots := h.slots hopened
  obtain ⟨hi, hget⟩ := List.getElem?_eq_some_iff.mp hl
  have hsplit : s.lookups = s.lookups.take i ++ l :: s.lookups.drop (i + 1) := by
    rw [← hget, ← List.drop_eq_getElem_cons hi, List.take_append_drop]
  have herase := List.eraseIdx_eq_take_drop_succ s.lookups i
  have hconsistent := hslots.2
  rw [hsplit] at hconsistent
  have hkept := finish_kept_iff hconsistent
  have hglobals : (finishLookup s i l).globals.firstInitNameserver = false ∧
      (finishLookup s i l).globals.nameserver =
        (loaded conf).set 0 l.nameserverBackup := by
    unfold finishLookup
    dsimp only
    split <;> exact ⟨hopened, hslots.set _⟩
  have hguard : Undisturbing conf s .finish ↔ (loaded conf).get 0 = (loaded conf).get 1 ∨
      (∃ earlier ∈ s.lookups.take i, earlier.serverchoice = 2) ∨ s.lookups.drop (i + 1) = [] ∨
        l.serverchoice ≠ 2 ∧ ∀ later ∈ s.lookups.drop (i + 1), later.serverchoice ≠ 2 := by
    apply or_congr_right
    constructor
    · intro horder
      exact horder i l hrunning hl
    · intro hcases j l' hj hl'
      obtain rfl : i = j := Option.some.inj (hrunning.symm.trans hj)
      obtain rfl : l = l' := Option.some.inj (hl.symm.trans hl')
      exact hcases
  rw [hguard, ← hkept]
  constructor
  · intro hafter
    have hafterSlots := (hafter.slots hglobals.1).2
    rw [hglobals.2] at hafterSlots
    have hcell : ((loaded conf).set 0 l.nameserverBackup).get 0 = l.nameserverBackup :=
      Vector.getElem_set_self _
    rw [hcell] at hafterSlots
    rw [← herase]
    exact hafterSlots
  · intro hconsistent'
    constructor
    · exact fun hfresh => absurd hfresh (by simp [hglobals.1])
    · intro _
      rw [hglobals.2]
      apply slotsSaved_set
      change SavedCell.Consistent _ ((s.lookups.eraseIdx i).map _) _
      rw [herase]
      exact hconsistent'
    · exact fun other hother => h.single other (List.mem_of_mem_eraseIdx hother)
    · exact h.queries

/-- A step keeps the invariant exactly when it meets the condition. -/
theorem step_invariant_iff {s s' : Resolver} {action : Action} (h : Invariant conf s)
    (hstep : step conf s action = some s') :
    Invariant conf s' ↔ Undisturbing conf s action := by
  cases action with
  | start serverchoice nRetries direct =>
      obtain ⟨-, rfl⟩ := step_start hstep
      exact iff_of_true (startLookup_invariant h _ _ _) (.inr trivial)
  | attempt outcome =>
      obtain ⟨i, l, hrunning, hl, -, hattempt⟩ := step_attempt hstep
      exact attemptQuery_invariant_iff h hrunning hl hattempt
  | resume i reply =>
      obtain ⟨l, l', -, hl, hl', rfl⟩ := step_resume hstep
      exact iff_of_true (h.replace hl (some i) (resumed_sameRequest hl')) (.inr trivial)
  | finish =>
      obtain ⟨i, l, hrunning, hl, -, rfl⟩ := step_finish hstep
      exact finishLookup_invariant_iff h hrunning hl

/-- In every run whose lookups overlap in order, queries go to the servers asked
for and the table is whole whenever no lookup is in progress. -/
theorem server_table_undisturbed (conf : Option ResolvConf) {actions : List Action}
    {s : Resolver} (hguard : Runs.Guarded (step conf) (Undisturbing conf) .init actions)
    (hrun : Runs.run (step conf) .init actions = some s) : TableUndisturbed conf s :=
  (Runs.guarded_run_invariant
    (fun _ _ _ hinv hundisturbing hstep => (step_invariant_iff hinv hstep).mpr hundisturbing)
    init_invariant hguard hrun).tableUndisturbed

/-- Two servers. -/
def twoServers : Option ResolvConf := some [["nameserver", "10.0.0.1", "10.0.0.2"]]

/-- A lookup for the second server inside one for every server. -/
def nestedLookups : List Action :=
  [.start 0 4 false, .attempt .sent, .start 2 4 false, .attempt .sent, .resume 1 .answered,
   .finish, .resume 0 .timedOut, .attempt .sent, .resume 0 .answered, .finish]

theorem nestedLookups_undisturbed : ∃ s,
    Runs.run (step twoServers) .init nestedLookups = some s ∧ s.lookups = [] ∧
      s.queries = [(0, "10.0.0.1"), (2, "10.0.0.2"), (0, "10.0.0.2")] ∧
      TableUndisturbed twoServers s := by
  have hguard : Runs.Guarded (step twoServers) (Undisturbing twoServers) .init nestedLookups := by
    have hlast {s : Resolver} {i : Nat} (hi : s.running = some i)
        (hdrop : s.lookups.drop (i + 1) = []) : Undisturbing twoServers s .finish := by
      apply Or.inr
      intro j l hj _
      obtain rfl : i = j := Option.some.inj (hi.symm.trans hj)
      exact .inr (.inl hdrop)
    have hsent {s : Resolver} (hnone : ∀ l ∈ s.lookups, l.serverchoice ≠ 1) :
        Undisturbing twoServers s (.attempt .sent) :=
      .inr (fun i l _ hl hchoice => absurd hchoice (hnone l (List.mem_of_getElem? hl)))
    apply Runs.Guarded.cons (.inr trivial) rfl
    apply Runs.Guarded.cons (hsent (by decide)) rfl
    apply Runs.Guarded.cons (.inr trivial) rfl
    apply Runs.Guarded.cons (hsent (by decide)) rfl
    apply Runs.Guarded.cons (.inr trivial) rfl
    apply Runs.Guarded.cons (hlast rfl rfl) rfl
    apply Runs.Guarded.cons (.inr trivial) rfl
    apply Runs.Guarded.cons (hsent (by decide)) rfl
    apply Runs.Guarded.cons (.inr trivial) rfl
    apply Runs.Guarded.cons (hlast rfl rfl) rfl
    trivial
  have hrun : ∃ s, Runs.run (step twoServers) .init nestedLookups = some s ∧ s.lookups = [] ∧
      s.queries = [(0, "10.0.0.1"), (2, "10.0.0.2"), (0, "10.0.0.2")] := ⟨_, rfl, rfl, rfl⟩
  obtain ⟨s, hs, hlookups, hqueries⟩ := hrun
  exact ⟨s, hs, hlookups, hqueries, server_table_undisturbed twoServers hguard hs⟩

/-- A lookup for the first server started while one for the second is in progress asks
the second; when they end in the order they started, slot 0 keeps the second server. -/
theorem overlapping_lookups_disturb_table : ∃ s,
    Runs.run (step twoServers) .init
        [.start 2 4 false, .attempt .sent, .start 1 4 false, .attempt .sent,
         .resume 0 .answered, .finish, .resume 0 .answered, .finish] = some s ∧
      s.lookups = [] ∧ (1, "10.0.0.2") ∈ s.queries ∧ ¬ TableUndisturbed twoServers s := by
  refine ⟨_, rfl, rfl, by decide, ?_⟩
  intro h
  have hquery := h.queries (1, "10.0.0.2") (by decide)
  rw [Denotes, if_pos rfl] at hquery
  exact absurd hquery (by decide)

end EventLoop.Dns
