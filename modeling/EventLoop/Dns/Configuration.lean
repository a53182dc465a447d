import EventLoop.Dns.ResolvConf

/-!
`__nameserver` over the calls that load and clear it. `__open_nameservers` sets only the count
back before it fills the array from slot 0 on; `__close_nameservers` walks down from the count
and clears the slots it passes.
-/

namespace EventLoop.Dns

/-- `__open_nameservers`, `none` where neither file can be opened. -/
def openNameserversFile (fp : Option (List UInt8)) (g : Globals) : Globals :=
  openNameservers (fp.map readConf) g

/-- The loop of `__close_nameservers` over `__nameserver`. -/
def clearNameservers (nameserver : Vector (Option String) maxServers) :
    Nat → Vector (Option String) maxServers
  | 0 => nameserver
  | nameservers + 1 => clearNameservers (nameserver.setIfInBounds nameservers none) nameservers

def closeNameservers (g : Globals) : Globals :=
  { g with
    nameserver := clearNameservers g.nameserver g.nameservers
    nameservers := 0
    searchdomain := [] }

/-- `__nameserver_exist`, with `k` for `serverChoice-1`. -/
def nameserverExist (g : Globals) (k : Fin maxServers) : Nat :=
  match g.nameserver.get k with
  | none => 0
  | some name => if 7 ≤ name.length then 1 else 0

inductive ConfigCall where
  /-- `__open_nameservers`, with the file it opens. -/
  | openCall (fp : Option (List UInt8))
  | closeCall
deriving DecidableEq, Repr

/-- The globals with the latest configuration that could be read; `opened` where the last call
read it. -/
structure Configured where
  globals : Globals
  latest : List UInt8
  opened : Bool

def Configured.init : Configured := ⟨.init, [], false⟩

def Configured.call (s : Configured) : ConfigCall → Option Configured
  | .openCall (some file) => some ⟨openNameserversFile (some file) s.globals, file, true⟩
  | .openCall none => some ⟨openNameserversFile none s.globals, s.latest, false⟩
  | .closeCall => some ⟨closeNameservers s.globals, s.latest, false⟩

/-- What the count and the slots below it stand for. -/
structure CountReflects (s : Configured) : Prop where
  count_le : s.globals.nameservers ≤ maxServers
  names : ∀ k : Fin maxServers, k < s.globals.nameservers →
    s.globals.nameserver.get k = (listedNames s.latest)[k.val]?
  count : s.globals.nameservers =
    if s.opened then min maxServers (listedNames s.latest).length else 0

/-- The slots are non-NULL exactly below the count, and hold the names listed. -/
structure TableReflects (s : Configured) : Prop extends CountReflects s where
  slots : ∀ k : Fin maxServers,
    s.globals.nameserver.get k ≠ none ↔ k < s.globals.nameservers
  exist : ∀ k : Fin maxServers, s.globals.nameservers ≤ k → nameserverExist s.globals k = 0

/-- Every line of the file that a call reads fits the buffer. -/
def ConfigCall.Fits : ConfigCall → Prop
  | .openCall (some file) => LinesFit file
  | _ => True

/-- A load reads whole lines and finds no more servers counted than its file lists. -/
def Covering (s : Configured) : ConfigCall → Prop
  | .openCall (some file) => LinesFit file ∧ s.globals.nameservers ≤ (listedNames file).length
  | .openCall none => s.globals.nameservers = 0
  | .closeCall => True

/-- `names` have been added to the table. -/
structure Adds (g g' : Globals) (names : List String) : Prop where
  count : g'.nameservers = min maxServers (g.nameservers + names.length)
  slot : ∀ k : Fin maxServers, g'.nameserver.get k =
    if g.nameservers ≤ k then (names[k - g.nameservers]?).or (g.nameserver.get k)
    else g.nameserver.get k

theorem adds_nil {g g' : Globals} (hle : g.nameservers ≤ maxServers)
    (hcount : g'.nameservers = g.nameservers) (hslots : g'.nameserver = g.nameserver) :
    Adds g g' [] where
  count := by
    rw [hcount, List.length_nil, Nat.add_zero, Nat.min_eq_right hle]
  slot := by simp [hslots]

theorem Adds.count_le {g g' : Globals} {names : List String} (h : Adds g g' names) :
    g'.nameservers ≤ maxServers := h.count ▸ Nat.min_le_left _ _

theorem Adds.append {g g' g'' : Globals} {names others : List String} (h : Adds g g' names)
    (h' : Adds g' g'' others) : Adds g g'' (names ++ others) where
  count := by
    rw [h'.count, h.count, List.length_append]
    omega
  slot := by
    intro k
    have hk := k.isLt
    rw [h'.slot, h.slot, h.count]
    by_cases hbelow : k.val < g.nameservers
    · have hnot : ¬ g.nameservers ≤ k := Nat.not_le.mpr hbelow
      have hnot' : ¬ min maxServers (g.nameservers + names.length) ≤ k := by omega
      rw [if_neg hnot', if_neg hnot, if_neg hnot]
    · rw [if_pos (Nat.le_of_not_lt hbelow), if_pos (Nat.le_of_not_lt hbelow)]
      by_cases hfirst : k.val - g.nameservers < names.length
      · have hnot' : ¬ min maxServers (g.nameservers + names.length) ≤ k := by omega
        rw [if_neg hnot', List.getElem?_append_left hfirst]
      · have hat :
            min maxServers (g.nameservers + names.length) = g.nameservers + names.length := by
          omega
        rw [hat, if_pos (by omega), List.getElem?_append_right (Nat.le_of_not_lt hfirst),
          List.getElem?_eq_none (Nat.le_of_not_lt hfirst), Nat.sub_sub, Option.none_or]

theorem addNameserver_adds {g : Globals} (hle : g.nameservers ≤ maxServers) (name : String) :
    Adds g (addNameserver g name) [name] := by
  unfold addNameserver
  split
  · rename_i hroom
    constructor
    · change g.nameservers + 1 = _
      rw [List.length_singleton]
      omega
    · intro k
      change (g.nameserver.setIfInBounds g.nameservers (some name))[k.val] = _
      rw [Vector.getElem_setIfInBounds]
      by_cases hat : g.nameservers = k
      · simp [hat]
      · rw [if_neg hat]
        by_cases hbelow : g.nameservers ≤ k
        · rw [if_pos hbelow, List.getElem?_eq_none (by rw [List.length_singleton]; omega)]
          rfl
        · rw [if_neg hbelow]
          rfl
  · rename_i hfull
    constructor
    · rw [List.length_singleton]
      omega
    · intro k
      rw [if_neg (by omega)]

theorem addNameservers_adds {g : Globals} (hle : g.nameservers ≤ maxServers)
    (names : List String) : Adds g (names.foldl addNameserver g) names := by
  induction names generalizing g with
  | nil => exact adds_nil hle rfl rfl
  | cons name rest ih =>
      have hfirst := addNameserver_adds hle name
      exact hfirst.append (ih hfirst.count_le)

theorem openLine_adds {g : Globals} (hle : g.nameservers ≤ maxServers) (line : List String) :
    Adds g (openLine g line) (ResolvConf.names [line]) := by
  cases line with
  | nil => exact adds_nil hle rfl rfl
  | cons keyword args =>
      have hnames : ResolvConf.names [keyword :: args] =
          if keyword = "nameserver" then args else [] := List.append_nil _
      rw [hnames, openLine]
      have hadds : Adds g (if keyword = "nameserver" then args.foldl addNameserver g else g)
          (if keyword = "nameserver" then args else []) := by
        split
        · exact addNameservers_adds hle args
        · exact adds_nil hle rfl rfl
      split
      · exact ⟨hadds.count, hadds.slot⟩
      · exact hadds

theorem openLines_adds {g : Globals} (hle : g.nameservers ≤ maxServers) (conf : ResolvConf) :
    Adds g (conf.foldl openLine g) conf.names := by
  induction conf generalizing g with
  | nil => exact adds_nil hle rfl rfl
  | cons line rest ih =>
      have hline := openLine_adds hle line
      have hnames : ResolvConf.names (line :: rest) =
          ResolvConf.names [line] ++ ResolvConf.names rest := by
        simp [ResolvConf.names]
      rw [hnames]
      exact hline.append (ih hline.count_le)

/-- What a load leaves in the table: the names listed from slot 0 on, and behind them whatever was
there before. -/
theorem openNameserversFile_table (g : Globals) {file : List UInt8} (hfit : LinesFit file) :
    (openNameserversFile (some file) g).nameservers = min maxServers (listedNames file).length ∧
      ∀ k : Fin maxServers, (openNameserversFile (some file) g).nameserver.get k =
        ((listedNames file)[k.val]?).or (g.nameserver.get k) := by
  have hadds : Adds { g with nameservers := 0 } (openNameserversFile (some file) g)
      (readConf file).names := openLines_adds (Nat.zero_le _) (readConf file)
  have htake := readConf_names hfit
  constructor
  · have hcount := hadds.count
    rw [Nat.zero_add] at hcount
    rw [hcount, ← List.length_take, htake, List.length_take]
  · intro k
    have hslot := hadds.slot k
    rw [if_pos (Nat.zero_le _), Nat.sub_zero] at hslot
    rw [hslot, ← List.getElem?_take_of_lt k.isLt, htake, List.getElem?_take_of_lt k.isLt]

theorem clearNameservers_get (nameserver : Vector (Option String) maxServers) (n : Nat)
    (k : Fin maxServers) : (clearNameservers nameserver n).get k =
      if k < n then none else nameserver.get k := by
  induction n generalizing nameserver with
  | zero => simp [clearNameservers]
  | succ n ih =>
      have hset : (nameserver.setIfInBounds n none).get k =
          if n = k then none else nameserver.get k := Vector.getElem_setIfInBounds k.isLt
      rw [clearNameservers, ih, hset]
      by_cases hbelow : k.val < n
      · rw [if_pos hbelow, if_pos (Nat.lt_succ_of_lt hbelow)]
      · rw [if_neg hbelow]
        by_cases hat : n = k
        · rw [if_pos hat, if_pos (by omega)]
        · rw [if_neg hat, if_neg (by omega)]

theorem init_reflects : TableReflects .init where
  count_le := Nat.zero_le _
  names := fun _ hk => absurd hk (Nat.not_lt_zero _)
  count := rfl
  slots := by decide
  exist := by decide

/-- The names below the count are right after every call that reads whole lines, whatever is above
it. -/
theorem call_countReflects {s s' : Configured} {call : ConfigCall} (hfit : call.Fits)
    (hcall : s.call call = some s') : CountReflects s' := by
  cases call with
  | closeCall =>
      obtain rfl := Option.some.inj hcall
      exact ⟨Nat.zero_le _, fun _ hk => absurd hk (Nat.not_lt_zero _), rfl⟩
  | openCall fp =>
      cases fp with
      | none =>
          obtain rfl := Option.some.inj hcall
          exact ⟨Nat.zero_le _, fun _ hk => absurd hk (Nat.not_lt_zero _), rfl⟩
      | some file =>
          obtain rfl := Option.some.inj hcall
          obtain ⟨hcount, hslot⟩ := openNameserversFile_table s.globals hfit
          constructor
          · exact Nat.le_trans (Nat.le_of_eq hcount) (Nat.min_le_left _ _)
          · intro k hk
            have hlisted : k.val < (listedNames file).length := by
              change k < (openNameserversFile (some file) s.globals).nameservers at hk
              omega
            change (openNameserversFile (some file) s.globals).nameserver.get k =
              (listedNames file)[k.val]?
            rw [hslot, List.getElem?_eq_getElem hlisted, Option.some_or]
          · exact hcount

/-- Where the slots are as they should be, `__nameserver_exist` is too. -/
theorem CountReflects.table_iff {s : Configured} (h : CountReflects s) :
    TableReflects s ↔
      ∀ k : Fin maxServers, s.globals.nameserver.get k ≠ none ↔ k < s.globals.nameservers := by
  constructor
  · exact TableReflects.slots
  · intro hslots
    refine ⟨h, hslots, ?_⟩
    intro k hk
    have hnone : s.globals.nameserver.get k = none :=
      Classical.not_not.mp (fun hsome => absurd ((hslots k).mp hsome) (Nat.not_lt.mpr hk))
    rw [nameserverExist, hnone]

/-- The names behind the ones a load brings stay where the count was higher before it. -/
theorem load_slots_iff {g : Globals} {file : List UInt8} (hfit : LinesFit file)
    (hle : g.nameservers ≤ maxServers)
    (hslots : ∀ k : Fin maxServers, g.nameserver.get k ≠ none ↔ k < g.nameservers) :
    (∀ k : Fin maxServers, (openNameserversFile (some file) g).nameserver.get k ≠ none ↔
        k < (openNameserversFile (some file) g).nameservers) ↔
      g.nameservers ≤ (listedNames file).length := by
  obtain ⟨hcount, hslot⟩ := openNameserversFile_table g hfit
  rw [hcount]
  constructor
  · intro hafter
    by_contra hfewer
    have hlisted : (listedNames file).length < maxServers := by omega
    have hstale := (hslots ⟨(listedNames file).length, hlisted⟩).mpr (Nat.lt_of_not_le hfewer)
    have hkept : (openNameserversFile (some file) g).nameserver.get
        ⟨(listedNames file).length, hlisted⟩ =
          g.nameserver.get ⟨(listedNames file).length, hlisted⟩ := by
      rw [hslot, List.getElem?_eq_none (Nat.le_refl _), Option.none_or]
    have hbelow := (hafter _).mp (hkept ▸ hstale)
    exact absurd hbelow (Nat.not_lt.mpr (Nat.min_le_right _ _))
  · intro hcovers k
    have hk := k.isLt
    rw [hslot]
    by_cases hlisted : k.val < (listedNames file).length
    · rw [List.getElem?_eq_getElem hlisted, Option.some_or]
      simp only [ne_eq, reduceCtorEq, not_false_eq_true, true_iff]
      omega
    · rw [List.getElem?_eq_none (Nat.le_of_not_lt hlisted), Option.none_or, hslots]
      omega

/-- A call that reads whole lines leaves the table right exactly if it covers what it found
there. -/
theorem call_table_iff {s s' : Configured} {call : ConfigCall} (hfit : call.Fits)
    (h : TableReflects s) (hcall : s.call call = some s') : TableReflects s' ↔ Covering s call := by
  rw [(call_countReflects hfit hcall).table_iff]
  cases call with
  | closeCall =>
      obtain rfl := Option.some.inj hcall
      refine iff_of_true ?_ trivial
      intro k
      change (clearNameservers s.globals.nameserver s.globals.nameservers).get k ≠ none ↔ k.val < 0
      rw [clearNameservers_get]
      split
      · simp
      · rename_i habove
        rw [h.slots k]
        simpa using habove
  | openCall fp =>
      cases fp with
      | none =>
          obtain rfl := Option.some.inj hcall
          change (∀ k : Fin maxServers, s.globals.nameserver.get k ≠ none ↔ k.val < 0) ↔
            s.globals.nameservers = 0
          constructor
          · intro hafter
            by_contra hloaded
            exact absurd ((hafter 0).mp ((h.slots 0).mpr (Nat.pos_of_ne_zero hloaded)))
              (Nat.not_lt_zero _)
          · intro hempty k
            rw [h.slots k, hempty]
      | some file =>
          obtain rfl := Option.some.inj hcall
          exact (load_slots_iff hfit h.count_le h.slots).trans (and_iff_right hfit).symm

theorem Covering.fits {s : Configured} {call : ConfigCall} (h : Covering s call) : call.Fits := by
  match call, h with
  | .openCall (some _), h => exact h.1
  | .openCall none, _ => trivial
  | .closeCall, _ => trivial

/-- The table reflects the configuration after every call of a sequence in which every load reads
whole lines and covers what the calls before it left; and, where no line is too long, after every
call of no other sequence. -/
theorem table_reflects {calls : List ConfigCall} {s : Configured}
    (hrun : Runs.run Configured.call .init calls = some s) :
    (Runs.Guarded Configured.call Covering .init calls →
      ∀ before after mid, calls = before ++ after →
        Runs.run Configured.call .init before = some mid → TableReflects mid) ∧
      ((∀ call ∈ calls, call.Fits) →
        (∀ before after mid, calls = before ++ after →
          Runs.run Configured.call .init before = some mid → TableReflects mid) →
        Runs.Guarded Configured.call Covering .init calls) := by
  have hkept : ∀ s call s', TableReflects s → Covering s call → Configured.call s call = some s' →
      TableReflects s' :=
    fun s call s' h hcovering hcall => (call_table_iff hcovering.fits h hcall).mpr hcovering
  constructor
  · exact Runs.prefixes_of_guarded (fun s h => h) hkept init_reflects hrun
  · intro hfit hall
    apply Runs.guarded_of_prefixes hkept _ hfit init_reflects hrun hall
    exact fun s call s' hfits h hcall hnext => (call_table_iff hfits h hcall).mp hnext

/-- The bytes of a text. -/
def fileOf (text : String) : List UInt8 := text.toList.map (fun char => UInt8.ofNat char.toNat)

/-- A load, and another behind a `__close_nameservers`. -/
def closedBetween : List ConfigCall :=
  [.openCall (some (fileOf "# two\nnameserver 10.0.0.1 10.0.0.2\n")), .closeCall,
    .openCall (some (fileOf "search lan\n\tnameserver 10.0.0.3"))]

theorem closedBetween_reflects : ∃ s,
    Runs.run Configured.call .init closedBetween = some s ∧ TableReflects s := by
  have hrun : ∃ s, Runs.run Configured.call .init closedBetween = some s := ⟨_, rfl⟩
  obtain ⟨s, hs⟩ := hrun
  have hcovering : Runs.Guarded Configured.call Covering .init closedBetween := by
    refine Runs.Guarded.cons ⟨by decide +kernel, Nat.zero_le _⟩ rfl ?_
    refine Runs.Guarded.cons trivial rfl ?_
    exact Runs.Guarded.cons ⟨by decide +kernel, Nat.zero_le _⟩ rfl trivial
  exact ⟨s, hs, (table_reflects hs).1 hcovering closedBetween [] s (List.append_nil _).symm hs⟩

/-- A server's name behind 110 blanks: `fgets` ends in the middle of it. -/
def longLine : List UInt8 :=
  fileOf "nameserver" ++ List.replicate 110 32 ++ fileOf "10.0.0.10\n"

/-- A second load that lists fewer servers leaves the name of a server of the first behind, and a
line that is too long for the buffer loads a name that is not listed. -/
theorem table_keeps_stale_server :
    (¬ ∀ (calls : List ConfigCall) (s : Configured),
      Runs.run Configured.call .init calls = some s → TableReflects s) ∧
    ∀ s, Configured.init.call (.openCall (some longLine)) = some s →
      s.globals.nameserver.get 0 = some "10.0.0." ∧ listedNames longLine = ["10.0.0.10"] := by
  constructor
  · intro h
    have hexist := (h [.openCall (some (fileOf "nameserver 10.0.0.1 10.0.0.2\n")),
      .openCall (some (fileOf "nameserver 10.0.0.3\n"))] _ rfl).exist 1 (by decide +kernel)
    exact absurd hexist (by decide +kernel)
  · intro s hs
    obtain rfl := Option.some.inj hs
    decide +kernel

end EventLoop.Dns
