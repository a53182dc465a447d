import EventLoop.Lib.Delimited
import EventLoop.Lib.Runs
import Mathlib.Data.List.Basic

/-!
`logServ_TCP_ev_handler` of `ns_log_server.c`: the requests of a connection end with a NUL
each, and the handler puts them together from what arrives. Of the connection the model has
the buffer `cp->tcpBuf` up to `cp->tcpBufPos` and the requests handed on.
-/

namespace EventLoop.LogServer

open Delimited

/-- `sizeof(cp->tcpBuf)` -/
def tcpBufSize : Nat := 32000000

structure Assembly where
  tcpBuf : List UInt8
  received : List (List UInt8)
deriving DecidableEq, Repr

/-- `nc->user_data`, and the arguments that `OnTCPLogServDataReceived` was called with. -/
structure Connection where
  cp : Option (List UInt8)
  received : List (List UInt8)
deriving DecidableEq, Repr

def Connection.init : Connection := ⟨none, []⟩

def Assembly.held (s : Assembly) : Connection := ⟨some s.tcpBuf, s.received⟩

inductive Event where
  | accept
  /-- `NS_RECV` with this in `nc->recv_iobuf`. -/
  | recv (io : List UInt8)
  | close
  | other
deriving DecidableEq, Repr

section

variable (countNullCharOnStream : List UInt8 → Int) (isTerminatedRequestStr : List UInt8 → Bool)

/-- A part of the received bytes is added to the buffer if it fits: `none` where the buffer
is cleared instead. -/
def append (s : Assembly) (part : List UInt8) : Option Assembly :=
  if tcpBufSize < s.tcpBuf.length + part.length then none
  else some { s with tcpBuf := s.tcpBuf ++ part }

/-- `goto EndProc` behind `cp->tcpBufPos=0` -/
def Assembly.cleared (s : Assembly) : Assembly := { s with tcpBuf := [] }

/-- `OnTCPLogServDataReceived` if the buffer is terminated. -/
def handOn (s : Assembly) : Assembly :=
  if isTerminatedRequestStr s.tcpBuf then { s with received := s.received ++ [s.tcpBuf] } else s

/-- The `do` loop from where `left` more NULs were counted, and what follows it. -/
def requestLoop : Nat → Assembly → List UInt8 → Assembly
  | 0, s, io => if io = [] then s else (append s io).getD s.cleared
  | left + 1, s, io =>
      let strLen := io.findIdx (· == 0) + 1
      match append s (io.take strLen) with
      | none => s.cleared
      | some whole =>
          let s := (handOn isTerminatedRequestStr whole).cleared
          if io.drop strLen = [] then s else requestLoop left s (io.drop strLen)

/-- `case NS_RECV` -/
def onRecv (s : Assembly) (io : List UInt8) : Assembly :=
  let numNull := countNullCharOnStream io
  if 1 ≤ numNull then requestLoop isTerminatedRequestStr numNull.toNat s io
  else match append s io with
    | none => s.cleared
    | some whole =>
        if isTerminatedRequestStr whole.tcpBuf then
          (handOn isTerminatedRequestStr whole).cleared
        else whole

/-- `logServ_TCP_ev_handler`; without a `cp` the bytes would be copied to `NULL`. -/
def logServTCPEvHandler (nc : Connection) : Event → Option Connection
  | .accept => some { nc with cp := some [] }
  | .recv io => nc.cp.map (fun tcpBuf =>
      (onRecv countNullCharOnStream isTerminatedRequestStr ⟨tcpBuf, nc.received⟩ io).held)
  | .close => some { nc with cp := none }
  | .other => some nc

end

structure Request where
  text : List UInt8
  noNul : 0 ∉ text
  fits : text.length + 1 ≤ tcpBufSize

def Request.bytes (request : Request) : List UInt8 := request.text ++ [0]

/-- The handler has handed on the complete requests, and holds the start of the next. -/
def assembled (stream : Split UInt8) : Assembly := ⟨stream.rest, stream.units.map (· ++ [0])⟩

structure Fits (stream : Split UInt8) : Prop where
  units : ∀ unit ∈ stream.units, unit.length + 1 ≤ tcpBufSize
  rest : stream.rest.length ≤ tcpBufSize

variable {countNullCharOnStream : List UInt8 → Int} {isTerminatedRequestStr : List UInt8 → Bool}
  {stream : Split UInt8}

/-- What fits at the end fitted all along. -/
theorem Fits.of_feed {io : List UInt8} (h : Fits (stream.feed 0 io)) : Fits stream := by
  obtain ⟨hunits, hrest⟩ := stream.feed_grows (d := 0) io
  refine ⟨fun unit hunit => h.units unit (hunits.subset hunit), ?_⟩
  rcases hrest with hrest | ⟨unit, hunit, hstart⟩
  · exact Nat.le_trans hrest.length_le h.rest
  · exact Nat.le_trans hstart.length_le (Nat.le_of_succ_le (h.units unit hunit))

theorem append_of_fits {s : Assembly} {part : List UInt8}
    (h : s.tcpBuf.length + part.length ≤ tcpBufSize) :
    append s part = some { s with tcpBuf := s.tcpBuf ++ part } :=
  if_neg (Nat.not_lt.mpr h)

/-- A part without a NUL is kept. -/
theorem append_assembled {io : List UInt8} (h : Fits (stream.feed 0 io)) (hio : 0 ∉ io) :
    append (assembled stream) io = some (assembled (stream.feed 0 io)) := by
  have hroom := h.rest
  rw [stream.feed_of_not_mem hio] at hroom ⊢
  exact append_of_fits (by rw [← List.length_append]; exact hroom)

section

variable (hterminated : ∀ bytes, isTerminatedRequestStr bytes = true ↔ bytes.getLast? = some 0)
include hterminated

theorem handOn_request (s : Assembly) {front : List UInt8} (hbuf : s.tcpBuf = front ++ [0]) :
    (handOn isTerminatedRequestStr s).cleared = ⟨[], s.received ++ [front ++ [0]]⟩ := by
  have hterm : isTerminatedRequestStr s.tcpBuf = true := by
    rw [hterminated, hbuf, List.getLast?_concat]
  rw [handOn, if_pos hterm, hbuf]
  rfl

/-- The loop hands on every request that ends in the buffer and keeps what stands behind. -/
theorem requestLoop_assembled {io : List UInt8} (h : Fits (stream.feed 0 io)) :
    requestLoop isTerminatedRequestStr (io.count 0) (assembled stream) io =
      assembled (stream.feed 0 io) := by
  induction hcount : io.count 0 generalizing stream io with
  | zero =>
      have hio : 0 ∉ io := List.count_eq_zero.mp hcount
      rw [requestLoop]
      split
      · rename_i hnil
        rw [hnil]
        rfl
      · rw [append_assembled h hio]
        rfl
  | succ left ih =>
      have hmem : 0 ∈ io := List.count_pos_iff.mp (by omega)
      obtain ⟨part, back, rfl, hpart⟩ := List.eq_append_cons_of_mem hmem
      have hindex : (part ++ 0 :: back).findIdx (· == 0) = part.length := by
        have hnone : part.findIdx (· == 0) = part.length := by
          rw [List.findIdx_eq_length]
          intro byte hbyte
          exact beq_false_of_ne (fun heq => hpart (heq ▸ hbyte))
        rw [List.findIdx_append, hnone, if_neg (Nat.lt_irrefl _), List.findIdx_cons]
        simp
      have htake : (part ++ 0 :: back).take (part.length + 1) = part ++ [0] := by
        rw [List.take_length_add_append]
        rfl
      have hdrop : (part ++ 0 :: back).drop (part.length + 1) = back := by
        rw [← List.drop_drop, List.drop_left]
        rfl
      have hfed := stream.feed_unit hpart back
      rw [hfed] at h ⊢
      have hwhole := h.of_feed.units (stream.rest ++ part)
        (List.mem_append_right _ (List.mem_cons_self ..))
      have hroom : append (assembled stream) (part ++ [0]) =
          some ⟨stream.rest ++ part ++ [0], stream.units.map (· ++ [0])⟩ := by
        have hsize : stream.rest.length + (part ++ [0]).length ≤ tcpBufSize := by
          rw [List.length_append] at hwhole ⊢
          exact Nat.le_trans (by simp only [List.length_singleton]; omega) hwhole
        rw [List.append_assoc]
        exact append_of_fits hsize
      have hleft : back.count 0 = left := by
        rw [List.count_append, List.count_eq_zero.mpr hpart, List.count_cons_self] at hcount
        omega
      have hrequest : (handOn isTerminatedRequestStr
          ⟨stream.rest ++ part ++ [0], stream.units.map (· ++ [0])⟩).cleared =
          assembled ⟨stream.units ++ [stream.rest ++ part], []⟩ := by
        rw [handOn_request hterminated _ rfl, assembled, List.map_append]
        rfl
      simp only [requestLoop, hindex, htake, hdrop, hroom, hrequest]
      split
      · rename_i hnil
        rw [hnil]
        rfl
      · exact ih h hleft

variable (hcount : ∀ bytes, countNullCharOnStream bytes = bytes.count 0)
include hcount

theorem onRecv_assembled {io : List UInt8} (h : Fits (stream.feed 0 io)) (hrest : 0 ∉ stream.rest) :
    onRecv countNullCharOnStream isTerminatedRequestStr (assembled stream) io =
      assembled (stream.feed 0 io) := by
  rw [onRecv, hcount]
  split
  · exact requestLoop_assembled hterminated h
  · rename_i hzero
    have hio : 0 ∉ io := List.count_eq_zero.mp (by omega)
    rw [append_assembled h hio]
    dsimp only
    rw [if_neg]
    intro hterm
    apply stream.not_mem_rest_feed io hrest
    exact List.mem_of_getLast? ((hterminated _).mp hterm)

/-- Any number of buffers, from a connection that holds the start of a request. -/
theorem run_recv (chunks : List (List UInt8)) (h : Fits (stream.feed 0 chunks.flatten))
    (hrest : 0 ∉ stream.rest) :
    Runs.run (logServTCPEvHandler countNullCharOnStream isTerminatedRequestStr)
        (assembled stream).held (chunks.map .recv) =
      some (assembled (stream.feed 0 chunks.flatten)).held := by
  induction chunks generalizing stream with
  | nil => rfl
  | cons io chunks ih =>
      rw [List.flatten_cons, stream.feed_append] at h ⊢
      have hstep : logServTCPEvHandler countNullCharOnStream isTerminatedRequestStr
          (assembled stream).held (.recv io) = some (assembled (stream.feed 0 io)).held :=
        congrArg (fun s => some (Assembly.held s))
          (onRecv_assembled hterminated hcount h.of_feed hrest)
      rw [List.map_cons]
      exact Runs.run_cons_eq_some.mpr ⟨_, hstep, ih h (stream.not_mem_rest_feed io hrest)⟩

/-- However the requests are cut into buffers, each is handed on once, whole and in order. -/
theorem requests_reassembled (requests : List Request) (chunks : List (List UInt8))
    (hchunks : chunks.flatten = requests.flatMap Request.bytes) :
    ∃ nc, Runs.run (logServTCPEvHandler countNullCharOnStream isTerminatedRequestStr) .init
        (.accept :: chunks.map .recv) = some nc ∧
      nc.received = requests.map Request.bytes := by
  have hflat : chunks.flatten = (requests.map Request.text).flatMap (· ++ [0]) := by
    rw [hchunks, List.flatMap_map]
    rfl
  have hnul : ∀ unit ∈ requests.map Request.text, 0 ∉ unit := by
    intro unit hunit
    obtain ⟨request, -, rfl⟩ := List.mem_map.mp hunit
    exact request.noNul
  have hsplit : Split.feed 0 ⟨[], []⟩ chunks.flatten = ⟨requests.map Request.text, []⟩ := by
    rw [hflat]
    exact split_units hnul
  have hfits : Fits (Split.feed 0 ⟨[], []⟩ chunks.flatten) := by
    rw [hsplit]
    refine ⟨?_, Nat.zero_le _⟩
    intro unit hunit
    obtain ⟨request, -, rfl⟩ := List.mem_map.mp hunit
    exact request.fits
  have hrun := run_recv hterminated hcount chunks hfits List.not_mem_nil
  refine ⟨_, hrun, ?_⟩
  rw [hsplit]
  exact List.map_map

end

/-- `PING`, and an empty request. -/
def pingThenEmpty : List Request := [⟨[80, 73, 78, 71], by decide, by decide⟩, ⟨[], by decide, by decide⟩]

theorem pingThenEmpty_reassembled :
    ∃ nc, Runs.run (logServTCPEvHandler (fun bytes => bytes.count 0)
        (fun bytes => bytes.getLast? == some 0)) .init
        (.accept :: [[80, 73], [78, 71, 0, 0]].map .recv) = some nc ∧
      nc.received = [[80, 73, 78, 71, 0], [0]] :=
  requests_reassembled (fun _ => beq_iff_eq) (fun _ => rfl) pingThenEmpty
    [[80, 73], [78, 71, 0, 0]] rfl

end EventLoop.LogServer
