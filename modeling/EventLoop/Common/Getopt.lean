import EventLoop.Lib.Iteration
import Mathlib.Data.List.GetD

/-!
`getopt` of `common.c`, called until it has no more options. A string is its characters without
the NUL behind them.
-/

namespace EventLoop.Common

open EventLoop.Iteration

/-- The static variables. `optarg` is a pointer into an argument. -/
structure Getopt where
  optind : Nat
  optchr : Nat
  optopt : UInt8
  optarg : Option (List UInt8)
deriving DecidableEq, Repr

def Getopt.init : Getopt := ⟨1, 1, 0, none⟩

/-- `s[i]`, with the NUL at the end. -/
def charAt (s : List UInt8) (i : Nat) : UInt8 := s.getD i 0

/-- `os_strchr`: what is behind the pointer. -/
def osStrchr (s : List UInt8) (c : UInt8) : Option (List UInt8) :=
  match s with
  | [] => none
  | first :: rest => if first = c then some (first :: rest) else osStrchr rest c

/-- `if (argv[optind][++optchr] == '\0')` -/
def Getopt.nextChar (g : Getopt) (arg : List UInt8) : Getopt :=
  if charAt arg (g.optchr + 1) = 0 then { g with optchr := 1, optind := g.optind + 1 }
  else { g with optchr := g.optchr + 1 }

/-- `none` is `EOF`. -/
def getopt (argv : List (List UInt8)) (optstring : List UInt8) (g : Getopt) :
    Option UInt8 × Getopt :=
  let arg := argv.getD g.optind []
  if g.optchr = 1 ∧
      (argv.length ≤ g.optind ∨ charAt arg 0 ≠ 45 ∨ charAt arg 1 = 0) then (none, g)
  else if arg = [45, 45] then (none, { g with optind := g.optind + 1 })
  else
    let g : Getopt := { g with optopt := charAt arg g.optchr }
    match if g.optopt = 58 then none else osStrchr optstring g.optopt with
    | none => (some 63, g.nextChar arg)
    | some cp =>
        if charAt cp 1 = 58 then
          let g : Getopt := { g with optchr := 1 }
          if charAt arg (g.optchr + 1) ≠ 0 then
            (some (charAt cp 0),
              { g with optind := g.optind + 1, optarg := some (arg.drop (g.optchr + 1)) })
          else
            let g : Getopt := { g with optind := g.optind + 1 }
            if argv.length ≤ g.optind then (some 63, g)
            else
              (some (charAt cp 0),
                { g with optind := g.optind + 1, optarg := some (argv.getD g.optind []) })
        else (some (charAt cp 0), { g.nextChar arg with optarg := none })

/-- What a call returns. The argument of an option is looked at where it is an option. -/
structure Parsed where
  returned : UInt8
  optopt : UInt8
  optarg : Option (List UInt8)
deriving DecidableEq, Repr

/-- `while ((c = getopt(argc, argv, optstring)) != EOF)`, with what it has returned before. -/
def getoptTurn (argv : List (List UInt8)) (optstring : List UInt8) (s : Getopt × List Parsed) :
    (Getopt × List Parsed) ⊕ (Nat × List Parsed) :=
  match getopt argv optstring s.1 with
  | (none, g) => .inr (g.optind, s.2)
  | (some c, g) => .inl (g, s.2 ++ [⟨c, g.optopt, if c = 63 then none else g.optarg⟩])

inductive Kind where
  | unknown
  | flag
  | takesArgument
deriving DecidableEq, Repr

/-- What the option string says of a character. -/
def kindOf (optstring : List UInt8) (c : UInt8) : Kind :=
  match if c = 58 then none else osStrchr optstring c with
  | none => .unknown
  | some cp => if charAt cp 1 = 58 then .takesArgument else .flag

/-- The argument of an option: what is behind it in its own argument, or the next argument. -/
def takeArgument : List UInt8 → List (List UInt8) → Option (List UInt8) × List (List UInt8)
  | [], [] => (none, [])
  | [], arg :: rest => (some arg, rest)
  | inline, rest => (some inline, rest)

/-- The options of one argument from one of its characters on, and the arguments behind them.
`inline` is what the argument of an option is that has more characters behind it. -/
def parseGroup (kind : UInt8 → Kind) (inline : List UInt8 → List UInt8) (args : List (List UInt8)) :
    List UInt8 → List Parsed × List (List UInt8)
  | [] => ([], args)
  | c :: cs =>
      match kind c with
      | .unknown =>
          let (options, rest) := parseGroup kind inline args cs
          (⟨63, c, none⟩ :: options, rest)
      | .flag =>
          let (options, rest) := parseGroup kind inline args cs
          (⟨c, c, none⟩ :: options, rest)
      | .takesArgument =>
          match takeArgument (inline cs) args with
          | (none, rest) => ([⟨63, c, none⟩], rest)
          | (some arg, rest) => ([⟨c, c, if c = 63 then none else some arg⟩], rest)

theorem takeArgument_suffix (inline : List UInt8) (args : List (List UInt8)) :
    (takeArgument inline args).2 <:+ args := by
  fun_cases takeArgument inline args with
  | case1 => exact List.suffix_refl _
  | case2 arg rest => exact List.suffix_cons arg rest
  | case3 => exact List.suffix_refl _

theorem parseGroup_suffix (kind : UInt8 → Kind) (inline : List UInt8 → List UInt8)
    (args : List (List UInt8)) (cs : List UInt8) :
    (parseGroup kind inline args cs).2 <:+ args := by
  induction cs with
  | nil => exact List.suffix_refl _
  | cons c cs ih =>
      rw [parseGroup]
      cases kind c with
      | unknown | flag => exact ih
      | takesArgument =>
          have htaken := takeArgument_suffix (inline cs) args
          revert htaken
          rcases takeArgument (inline cs) args with ⟨_ | arg, rest⟩
          · exact id
          · exact id

/-- All options, and the arguments behind them. -/
def parseArgs (kind : UInt8 → Kind) (inline : List UInt8 → List UInt8 → List UInt8) :
    List (List UInt8) → List Parsed × List (List UInt8)
  | [] => ([], [])
  | arg :: args =>
      match arg with
      | 45 :: c :: cs =>
          if arg = [45, 45] then ([], args)
          else
            let group := parseGroup kind (inline cs) args (c :: cs)
            let (options, rest) := parseArgs kind inline group.2
            (group.1 ++ options, rest)
      | _ => ([], arg :: args)
termination_by args => args.length
decreasing_by
  have hle := (parseGroup_suffix kind (inline cs) args (c :: cs)).length_le
  simp only [List.length_cons]
  omega

variable {argv : List (List UInt8)} {optstring : List UInt8} {g : Getopt}

theorem charAt_append (front back : List UInt8) (i : Nat) :
    charAt (front ++ back) (front.length + i) = charAt back i := by
  simp [charAt, List.getD_eq_getElem?_getD, List.getElem?_append_right]

theorem charAt_ne_zero {s : List UInt8} (h : 0 ∉ s) {i : Nat} (hi : i < s.length) :
    charAt s i ≠ 0 := by
  rw [charAt, List.getD_eq_getElem _ _ hi]
  exact fun hzero => h (hzero ▸ List.getElem_mem hi)

theorem charAt_of_le {s : List UInt8} {i : Nat} (h : s.length ≤ i) : charAt s i = 0 :=
  List.getD_eq_default _ _ h

/-- The option string says of each of its characters that it is the one that is found. -/
theorem charAt_osStrchr {c : UInt8} {cp : List UInt8} (h : osStrchr optstring c = some cp) :
    charAt cp 0 = c := by
  induction optstring with
  | nil => cases h
  | cons first rest ih =>
      rw [osStrchr] at h
      split at h
      case isTrue heq =>
          cases h
          exact heq
      case isFalse => exact ih h

theorem getD_of_drop {arg : List UInt8} {args : List (List UInt8)} {i : Nat}
    (h : argv.drop i = arg :: args) : argv.getD i [] = arg := by
  have hfirst := congrArg List.head? h
  rw [List.head?_drop, List.head?_cons] at hfirst
  rw [List.getD_eq_getElem?_getD, hfirst, Option.getD_some]

/-- The static variables point at a character of an option group. -/
structure Inside (argv : List (List UInt8)) (g : Getopt) (arg : List UInt8)
    (args : List (List UInt8)) (pre : List UInt8) (c : UInt8) (cs : List UInt8) : Prop where
  drop : argv.drop g.optind = arg :: args
  shape : arg = 45 :: (pre ++ c :: cs)
  text : 0 ∉ arg
  notEnd : arg ≠ [45, 45]
  optchr : g.optchr = pre.length + 1

section

variable {arg : List UInt8} {args : List (List UInt8)} {pre cs : List UInt8} {c : UInt8}
  (h : Inside argv g arg args pre c cs)
include h

theorem Inside.optind_lt : g.optind < argv.length := by
  have hlength := congrArg List.length h.drop
  simp only [List.length_drop, List.length_cons] at hlength
  omega

theorem Inside.argv_optind : argv.getD g.optind [] = arg := getD_of_drop h.drop

theorem Inside.drop_succ : argv.drop (g.optind + 1) = args := by
  rw [← List.drop_drop, h.drop, List.drop_one, List.tail_cons]

theorem Inside.charAt_optchr : charAt arg g.optchr = c := by
  rw [h.optchr, h.shape]
  exact charAt_append (45 :: pre) (c :: cs) 0

theorem Inside.charAt_succ : charAt arg (g.optchr + 1) = 0 ↔ cs = [] := by
  have hplace : charAt arg (g.optchr + 1) = charAt (c :: cs) 1 := by
    rw [h.optchr, h.shape, Nat.add_right_comm]
    exact charAt_append (45 :: pre) (c :: cs) 1
  rw [hplace]
  cases cs with
  | nil => simp [charAt]
  | cons first rest =>
      have hne : first ≠ 0 := by
        rintro rfl
        exact h.text (by rw [h.shape]; simp)
      simp [charAt, hne]

/-- Past the character. -/
theorem Inside.nextChar (optopt : UInt8) (optarg : Option (List UInt8)) :
    let g' : Getopt := { g with optopt, optarg }
    g'.nextChar arg =
      if cs = [] then ⟨g.optind + 1, 1, optopt, optarg⟩
      else ⟨g.optind, g.optchr + 1, optopt, optarg⟩ := by
  simp only [Getopt.nextChar, h.charAt_succ]

/-- The checks at the beginning of a call are passed. -/
theorem Inside.not_eof : ¬ (g.optchr = 1 ∧
    (argv.length ≤ g.optind ∨ charAt arg 0 ≠ 45 ∨ charAt arg 1 = 0)) := by
  rintro ⟨hfirst, hend | hdash | hempty⟩
  · exact absurd h.optind_lt (Nat.not_lt.mpr hend)
  · exact hdash (by rw [h.shape]; rfl)
  · apply charAt_ne_zero h.text _ hempty
    rw [h.shape]
    simp

/-- What a call does there. -/
theorem Inside.getopt_eq (optstring : List UInt8) : getopt argv optstring g =
    match kindOf optstring c with
    | .unknown => (some 63, { g with optopt := c }.nextChar arg)
    | .flag => (some c, { { g with optopt := c }.nextChar arg with optarg := none })
    | .takesArgument =>
        let taken := takeArgument (arg.drop 2) args
        (some (if taken.1.isSome then c else 63),
          ⟨g.optind + 1 + (args.length - taken.2.length), 1, c, taken.1.or g.optarg⟩) := by
  rw [getopt]
  simp only [h.argv_optind, h.charAt_optchr, kindOf]
  rw [if_neg h.not_eof, if_neg h.notEnd]
  cases hcp : (if c = 58 then none else osStrchr optstring c) with
  | none => rfl
  | some cp =>
      have hfound : charAt cp 0 = c := by
        split at hcp
        · cases hcp
        · exact charAt_osStrchr hcp
      dsimp only
      by_cases htakes : charAt cp 1 = 58
      · rw [if_pos htakes, if_pos htakes]
        dsimp only
        have hinline : charAt arg 2 = 0 ↔ arg.drop 2 = [] := by
          rw [List.drop_eq_nil_iff]
          constructor
          · intro hzero
            by_contra hlength
            exact charAt_ne_zero h.text (Nat.lt_of_not_le hlength) hzero
          · exact charAt_of_le
        have hbehind := h.drop_succ
        cases hdrop : arg.drop 2 with
        | cons first rest =>
            have hchar : charAt arg (1 + 1) ≠ 0 := by simp [hinline, hdrop]
            rw [if_pos hchar]
            simp [takeArgument, hfound]
        | nil =>
            have hchar : ¬ charAt arg (1 + 1) ≠ 0 := by simp [hinline, hdrop]
            rw [if_neg hchar]
            cases args with
            | nil =>
                rw [if_pos (List.drop_eq_nil_iff.mp hbehind)]
                simp [takeArgument]
            | cons next args =>
                have hlt : ¬ argv.length ≤ g.optind + 1 := by
                  rw [← List.drop_eq_nil_iff, hbehind]
                  exact List.cons_ne_nil _ _
                rw [if_neg hlt, getD_of_drop hbehind]
                simp [takeArgument, hfound]
      · rw [if_neg htakes, if_neg htakes, hfound]

end

theorem Inside.next {arg : List UInt8} {args : List (List UInt8)} {pre cs : List UInt8} {c d : UInt8}
    (h : Inside argv g arg args pre c (d :: cs)) (optopt : UInt8) (optarg : Option (List UInt8)) :
    Inside argv ⟨g.optind, g.optchr + 1, optopt, optarg⟩ arg args (pre ++ [c]) d cs where
  drop := h.drop
  shape := by simpa using h.shape
  text := h.text
  notEnd := h.notEnd
  optchr := by simpa using h.optchr

section

variable {arg : List UInt8} {args : List (List UInt8)} {pre cs : List UInt8} {c : UInt8}

/-- A call for an option without an argument, or for a character that is none. -/
theorem Inside.turn_plain (h : Inside argv g arg args pre c cs) (acc : List Parsed)
    (inline : List UInt8 → List UInt8) (hkind : kindOf optstring c ≠ .takesArgument) :
    ∃ returned optarg,
      parseGroup (kindOf optstring) inline args (c :: cs) =
          (⟨returned, c, none⟩ :: (parseGroup (kindOf optstring) inline args cs).1,
            (parseGroup (kindOf optstring) inline args cs).2) ∧
        getoptTurn argv optstring (g, acc) =
          .inl (if cs = [] then ⟨g.optind + 1, 1, c, optarg⟩
            else ⟨g.optind, g.optchr + 1, c, optarg⟩, acc ++ [⟨returned, c, none⟩]) := by
  have hcall := h.getopt_eq optstring
  cases hc : kindOf optstring c with
  | takesArgument => exact absurd hc hkind
  | unknown =>
      refine ⟨63, g.optarg, by simp [parseGroup, hc], ?_⟩
      simp only [hc, h.nextChar c g.optarg] at hcall
      rw [getoptTurn, hcall]
      cases cs <;> rfl
  | flag =>
      refine ⟨c, none, by simp [parseGroup, hc], ?_⟩
      simp only [hc, h.nextChar c g.optarg] at hcall
      rw [getoptTurn, hcall]
      cases cs <;> simp

/-- A call for an option with an argument, which begins behind the first option of its group. -/
theorem Inside.turn_takes (h : Inside argv g arg args pre c cs) (acc : List Parsed)
    (hkind : kindOf optstring c = .takesArgument) :
    ∃ optarg,
      getoptTurn argv optstring (g, acc) =
        .inl (⟨g.optind + 1 + (args.length - (takeArgument (arg.drop 2) args).2.length), 1, c,
          optarg⟩, acc ++ (parseGroup (kindOf optstring) (fun _ => arg.drop 2) args (c :: cs)).1) ∧
      (parseGroup (kindOf optstring) (fun _ => arg.drop 2) args (c :: cs)).2 =
        (takeArgument (arg.drop 2) args).2 := by
  have hcall := h.getopt_eq optstring
  simp only [hkind] at hcall
  rcases htaken : takeArgument (arg.drop 2) args with ⟨argument, rest⟩
  refine ⟨argument.or g.optarg, ?_, ?_⟩
  · rw [getoptTurn, hcall]
    cases argument <;> simp [htaken, parseGroup, hkind]
  · cases argument <;> simp [htaken, parseGroup, hkind]

/-- The end of a group that an option with an argument makes. -/
theorem Inside.takes_end (h : Inside argv g arg args pre c cs) (inline : List UInt8) :
    g.optind + 1 + (args.length - (takeArgument inline args).2.length) ≤ argv.length ∧
      argv.drop (g.optind + 1 + (args.length - (takeArgument inline args).2.length)) =
        (takeArgument inline args).2 := by
  have hbehind := h.drop_succ
  constructor
  · have hlength := congrArg List.length h.drop
    simp only [List.length_drop, List.length_cons] at hlength
    omega
  · rw [← List.drop_drop, hbehind]
    exact (List.suffix_iff_eq_drop.mp (takeArgument_suffix inline args)).symm

/-- The calls for one argument return its options, and go on with the arguments behind it. -/
theorem yields_group {acc : List Parsed} {r : Nat × List Parsed}
    (h : Inside argv g arg args pre c cs)
    (hthen : ∀ g' : Getopt, g'.optchr = 1 → g'.optind ≤ argv.length →
      argv.drop g'.optind =
        (parseGroup (kindOf optstring) (fun _ => arg.drop 2) args (c :: cs)).2 →
      Yields (getoptTurn argv optstring)
        (g', acc ++ (parseGroup (kindOf optstring) (fun _ => arg.drop 2) args (c :: cs)).1) r) :
    Yields (getoptTurn argv optstring) (g, acc) r := by
  induction cs generalizing g pre c acc with
  | nil =>
      have hlast := h.optind_lt
      by_cases hkind : kindOf optstring c = .takesArgument
      · obtain ⟨optarg, hturn, hrest⟩ := h.turn_takes acc hkind
        obtain ⟨hle, hdrop⟩ := h.takes_end (arg.drop 2)
        rw [yields_of_inl hturn]
        exact hthen _ rfl hle (hdrop.trans hrest.symm)
      · obtain ⟨returned, optarg, hgroup, hturn⟩ := h.turn_plain acc (fun _ => arg.drop 2) hkind
        rw [yields_of_inl hturn]
        rw [hgroup] at hthen
        exact hthen _ rfl hlast h.drop_succ
  | cons d ds ih =>
      by_cases hkind : kindOf optstring c = .takesArgument
      · obtain ⟨optarg, hturn, hrest⟩ := h.turn_takes acc hkind
        obtain ⟨hle, hdrop⟩ := h.takes_end (arg.drop 2)
        rw [yields_of_inl hturn]
        exact hthen _ rfl hle (hdrop.trans hrest.symm)
      · obtain ⟨returned, optarg, hgroup, hturn⟩ := h.turn_plain acc (fun _ => arg.drop 2) hkind
        rw [yields_of_inl hturn]
        apply ih (h.next c optarg)
        intro g' hoptchr hoptind hdrop
        rw [hgroup] at hthen
        have hyields := hthen g' hoptchr hoptind hdrop
        rwa [← List.singleton_append, ← List.append_assoc] at hyields

end

/-- A call that finds no option. -/
theorem getoptTurn_stop (optstring : List UInt8) (hoptchr : g.optchr = 1)
    (hstops : argv.length ≤ g.optind ∨ charAt (argv.getD g.optind []) 0 ≠ 45 ∨
      charAt (argv.getD g.optind []) 1 = 0) (acc : List Parsed) :
    getoptTurn argv optstring (g, acc) = .inr (g.optind, acc) := by
  rw [getoptTurn, getopt]
  dsimp only
  rw [if_pos ⟨hoptchr, hstops⟩]

theorem getoptTurn_end {args : List (List UInt8)} (hargs : argv.drop g.optind = [45, 45] :: args)
    (acc : List Parsed) : getoptTurn argv optstring (g, acc) = .inr (g.optind + 1, acc) := by
  have hlast : ¬ argv.length ≤ g.optind := by
    rw [← List.drop_eq_nil_iff, hargs]
    exact List.cons_ne_nil _ _
  rw [getoptTurn, getopt]
  dsimp only
  rw [getD_of_drop hargs, if_neg (by simp [hlast, charAt]), if_pos rfl]

/-- Called until it has no more options, `getopt` returns those of the arguments in order, and
leaves `optind` at the first argument behind them. -/
theorem yields_args (optstring : List UInt8) (htext : ∀ arg ∈ argv, 0 ∉ arg) {args : List (List UInt8)}
    (hargs : argv.drop g.optind = args) (hoptchr : g.optchr = 1) (hle : g.optind ≤ argv.length)
    (acc : List Parsed) :
    Yields (getoptTurn argv optstring) (g, acc)
      (argv.length - (parseArgs (kindOf optstring) (fun cs _ => cs) args).2.length,
        acc ++ (parseArgs (kindOf optstring) (fun cs _ => cs) args).1) := by
  induction hlength : args.length using Nat.strong_induction_on generalizing g args acc with
  | _ n ih =>
      have hoptind : argv.length - args.length = g.optind := by
        rw [← hargs, List.length_drop]
        omega
      cases args with
      | nil =>
          have hend := getoptTurn_stop optstring hoptchr (.inl (List.drop_eq_nil_iff.mp hargs)) acc
          rw [parseArgs, List.append_nil, hoptind]
          exact yields_of_inr hend
      | cons arg args =>
          rw [parseArgs.eq_def]
          dsimp only
          split
          case h_1 whole c cs =>
              split
              case isTrue hend =>
                  rw [hend] at hargs
                  rw [List.append_nil, show argv.length - args.length = g.optind + 1 by
                    simp only [List.length_cons] at hoptind
                    have hlast := congrArg List.length hargs
                    simp only [List.length_drop, List.length_cons] at hlast
                    omega]
                  exact yields_of_inr (getoptTurn_end hargs acc)
              case isFalse hend =>
                  have hmem : 45 :: c :: cs ∈ argv := by
                    apply List.mem_of_mem_drop
                    rw [hargs]
                    exact List.mem_cons_self ..
                  have hinside : Inside argv g (45 :: c :: cs) args [] c cs :=
                    ⟨hargs, rfl, htext _ hmem, hend, hoptchr⟩
                  apply yields_group hinside
                  intro g' hoptchr' hle' hdrop
                  change _ = (parseGroup (kindOf optstring) (fun _ => cs) args (c :: cs)).2 at hdrop
                  have hshorter := (parseGroup_suffix (kindOf optstring) (fun _ => cs) args
                    (c :: cs)).length_le
                  rw [← List.append_assoc]
                  exact ih _ (by rw [← hlength, List.length_cons]; omega) hdrop hoptchr' hle' _ rfl
          case h_2 hother =>
              rw [List.append_nil, hoptind]
              apply yields_of_inr
              apply getoptTurn_stop optstring hoptchr
              rw [getD_of_drop hargs]
              right
              match arg, hother with
              | [], _ => exact .inl (by decide)
              | [_], _ => exact .inr rfl
              | first :: second :: rest, hother =>
                  left
                  intro hdash
                  exact hother second rest (by rw [← hdash]; rfl)

/-- Of the options of a group only the first one takes an argument. -/
def ArgumentFirst (kind : UInt8 → Kind) (c : UInt8) (cs : List UInt8) : Prop :=
  kind c = .takesArgument ∨ ∀ d ∈ cs, kind d ≠ .takesArgument

instance (kind : UInt8 → Kind) (c : UInt8) (cs : List UInt8) :
    Decidable (ArgumentFirst kind c cs) :=
  inferInstanceAs (Decidable (_ ∨ _))

/-- It is so in every group that is read as one. -/
def ArgumentsFirst (kind : UInt8 → Kind) : List (List UInt8) → Prop
  | [] => True
  | arg :: args =>
      match arg with
      | 45 :: c :: cs =>
          arg = [45, 45] ∨
            ArgumentFirst kind c cs ∧
              ArgumentsFirst kind (parseGroup kind (fun cs => cs) args (c :: cs)).2
      | _ => True
termination_by args => args.length
decreasing_by
  have hle := (parseGroup_suffix kind (fun cs => cs) args (c :: cs)).length_le
  simp only [List.length_cons]
  omega

theorem parseGroup_of_none {kind : UInt8 → Kind} {inline inline' : List UInt8 → List UInt8}
    {args : List (List UInt8)} {cs : List UInt8} (h : ∀ d ∈ cs, kind d ≠ .takesArgument) :
    parseGroup kind inline args cs = parseGroup kind inline' args cs := by
  induction cs with
  | nil => rfl
  | cons c cs ih =>
      obtain ⟨hc, hcs⟩ := List.forall_mem_cons.mp h
      rw [parseGroup, parseGroup, ih hcs]
      cases hkind : kind c with
      | unknown | flag => rfl
      | takesArgument => exact absurd hkind hc

/-- The argument of an option that is the first of its group is what is behind the option. -/
theorem parseGroup_of_argumentFirst {kind : UInt8 → Kind} {args : List (List UInt8)} {c : UInt8}
    {cs : List UInt8} (h : ArgumentFirst kind c cs) :
    parseGroup kind (fun _ => cs) args (c :: cs) =
      parseGroup kind (fun cs => cs) args (c :: cs) := by
  rcases h with hfirst | hnone
  · simp only [parseGroup, hfirst]
  · rw [parseGroup, parseGroup, parseGroup_of_none hnone]

theorem parseArgs_of_argumentsFirst {kind : UInt8 → Kind} {args : List (List UInt8)}
    (h : ArgumentsFirst kind args) :
    parseArgs kind (fun cs _ => cs) args = parseArgs kind (fun _ cs => cs) args := by
  induction hlength : args.length using Nat.strong_induction_on generalizing args with
  | _ n ih =>
      cases args with
      | nil => simp only [parseArgs]
      | cons arg args =>
          rw [parseArgs.eq_def, parseArgs.eq_def kind (fun _ cs => cs)]
          rw [ArgumentsFirst.eq_def] at h
          dsimp only at h ⊢
          split
          case h_2 => rfl
          case h_1 whole c cs =>
              split
              case isTrue => rfl
              case isFalse hend =>
                  obtain ⟨hfirst, hrest⟩ := h.resolve_left hend
                  rw [parseGroup_of_argumentFirst hfirst]
                  have hshorter := (parseGroup_suffix kind (fun cs => cs) args (c :: cs)).length_le
                  rw [ih _ (by rw [← hlength, List.length_cons]; omega) hrest rfl]

theorem parseArgs_suffix (kind : UInt8 → Kind) (inline : List UInt8 → List UInt8 → List UInt8)
    (args : List (List UInt8)) : (parseArgs kind inline args).2 <:+ args := by
  induction hlength : args.length using Nat.strong_induction_on generalizing args with
  | _ n ih =>
      cases args with
      | nil => simp only [parseArgs, List.suffix_refl]
      | cons arg args =>
          rw [parseArgs.eq_def]
          dsimp only
          split
          case h_2 => exact List.suffix_refl _
          case h_1 whole c cs =>
              split
              case isTrue => exact List.suffix_cons _ args
              case isFalse =>
                  have hgroup := parseGroup_suffix kind (inline cs) args (c :: cs)
                  have hlt : (parseGroup kind (inline cs) args (c :: cs)).2.length < n := by
                    have hle := hgroup.length_le
                    simp only [List.length_cons] at hlength
                    omega
                  exact ((ih _ hlt _ rfl).trans hgroup).trans (List.suffix_cons _ args)

/-- A program that calls `getopt` until it returns `EOF` gets its options in the order of the
arguments, whatever they are, and `optind` at the first one behind them. The argument of an option
begins behind the first option of its group: it is what stands behind the option itself as long as
no option with an argument follows another one in a group. -/
theorem getopt_reads_arguments (argv : List (List UInt8)) (optstring : List UInt8)
    (hprogram : argv ≠ []) (htext : ∀ arg ∈ argv, 0 ∉ arg) :
    ∃ optind options,
      Yields (getoptTurn argv optstring) (Getopt.init, []) (optind, options) ∧
        (options, argv.drop optind) =
          parseArgs (kindOf optstring) (fun cs _ => cs) (argv.drop 1) ∧
        (ArgumentsFirst (kindOf optstring) (argv.drop 1) →
          (options, argv.drop optind) =
            parseArgs (kindOf optstring) (fun _ cs => cs) (argv.drop 1)) := by
  have hle : Getopt.init.optind ≤ argv.length := List.length_pos_iff.mpr hprogram
  have hyields := yields_args optstring htext rfl rfl hle []
  have hrest : argv.drop (argv.length -
      (parseArgs (kindOf optstring) (fun cs _ => cs) (argv.drop 1)).2.length) =
        (parseArgs (kindOf optstring) (fun cs _ => cs) (argv.drop 1)).2 :=
    (List.suffix_iff_eq_drop.mp ((parseArgs_suffix _ _ _).trans (List.drop_suffix 1 argv))).symm
  have hread : ([] ++ (parseArgs (kindOf optstring) (fun cs _ => cs) (argv.drop 1)).1,
      argv.drop (argv.length -
        (parseArgs (kindOf optstring) (fun cs _ => cs) (argv.drop 1)).2.length)) =
        parseArgs (kindOf optstring) (fun cs _ => cs) (argv.drop 1) := by
    rw [List.nil_append, hrest]
  refine ⟨_, _, hyields, hread, ?_⟩
  intro hfirst
  rw [← parseArgs_of_argumentsFirst hfirst]
  exact hread

/-- `-vo x` with the options `vo:`. The argument of `o` is read as `o`. -/
theorem getopt_reads_arguments_group :
    ∃ optind options,
      Yields (getoptTurn [[112], [45, 118, 111], [120]] [118, 111, 58]) (Getopt.init, [])
          (optind, options) ∧
        options = [⟨118, 118, none⟩, ⟨111, 111, some [111]⟩] ∧
        List.drop optind [[(112 : UInt8)], [45, 118, 111], [120]] = [[120]] := by
  obtain ⟨optind, options, hyields, hread, -⟩ :=
    getopt_reads_arguments [[112], [45, 118, 111], [120]] [118, 111, 58] (by decide) (by decide)
  refine ⟨optind, options, hyields, ?_⟩
  simpa [parseArgs, parseGroup, takeArgument, kindOf, osStrchr, charAt] using hread

end EventLoop.Common
