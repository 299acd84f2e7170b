import Mathlib
import StreamArena.Library.Chunks
import StreamArena.Library.Outcome

/-! The video of a transport stream, from a part of it: `ts_h264_elementary_stream` and the program tables it
reads (src/src/resolver/vidzee.rs). -/
namespace StreamArena.Resolver
open Chunks

abbrev Bytes := List UInt8

def tsPacketLen : Nat := 188

/-- So many bits of a byte or a word, from a place on. -/
def field (n shift width : Nat) : Nat := n / 2 ^ shift % 2 ^ width

def beWord (high low : UInt8) : Nat := high.toNat * 256 + low.toNat

/-- A part of a slice that may lie outside it. -/
def sliceFrom (bytes : Bytes) (start : Nat) : Option Bytes := if start ≤ bytes.length then some (bytes.drop start) else none
def sliceTo (bytes : Bytes) (stop : Nat) : Option Bytes := if stop ≤ bytes.length then some (bytes.take stop) else none

/-- The section at the start of a payload, without its checksum. -/
def psiSection (payload : Bytes) : Option Bytes := do
  let pointer ← payload[0]?
  let table ← sliceFrom payload (1 + pointer.toNat)
  let high ← table[1]?
  let low ← table[2]?
  let length := field (beWord high low) 0 12
  if 4 ≤ length then sliceTo table (3 + (length - 4)) else none

def programPid (entry : Bytes) : Outcome (Option Nat) := do
  let high ← .index entry 0
  let low ← .index entry 1
  if beWord high low ≠ 0 then
    let pidHigh ← .index entry 2
    let pidLow ← .index entry 3
    .value (some (field (beWord pidHigh pidLow) 0 13))
  else .value none

def findProgram : List Bytes → Outcome Nat
  | [] => .nothing
  | entry :: entries => do
    match ← programPid entry with
    | some pid => .value pid
    | none => findProgram entries

def patPmtPid (table : Bytes) : Outcome Nat := do
  let tableId ← .ofOption table[0]?
  if tableId ≠ 0 then .nothing
  else
    let entries ← .ofOption (sliceFrom table 8)
    findProgram (chunks 4 entries)

/-- The loop over the streams of a program, each turn of which takes five bytes at least. -/
def findH264 : Nat → Bytes → Outcome Nat
  | 0, _ => .nothing
  | turns + 1, entries =>
    if entries.length < 5 then .nothing
    else do
      let streamType ← .index entries 0
      let pidHigh ← .index entries 1
      let pidLow ← .index entries 2
      let lengthHigh ← .index entries 3
      let lengthLow ← .index entries 4
      if streamType = 0x1b then .value (field (beWord pidHigh pidLow) 0 13)
      else
        let rest ← .ofOption (sliceFrom entries (5 + field (beWord lengthHigh lengthLow) 0 12))
        findH264 turns rest

def pmtH264Pid (table : Bytes) : Outcome Nat := do
  let tableId ← .ofOption table[0]?
  if tableId ≠ 2 then .nothing
  else
    let high ← .ofOption table[10]?
    let low ← .ofOption table[11]?
    let entries ← .ofOption (sliceFrom table (12 + field (beWord high low) 0 12))
    findH264 entries.length entries

/-- What the loop over the packets keeps. -/
structure Demux where
  pmtPid : Option Nat
  videoPid : Option Nat
  stream : Bytes
  pesStarted : Bool
  deriving DecidableEq

def Demux.start : Demux := ⟨none, none, [], false⟩

def Demux.video (state : Demux) (unitStart : Bool) (payload : Bytes) : Outcome Demux :=
  if unitStart = true then
    if payload.length < 9 then .nothing
    else .guarded (3 ≤ payload.length) <|
      if payload.take 3 ≠ [0, 0, 1] then .nothing
      else do
        let headerLength ← .index payload 8
        let data ← .ofOption (sliceFrom payload (9 + headerLength.toNat))
        .value { state with stream := state.stream ++ data, pesStarted := true }
  else if state.pesStarted = true then .value { state with stream := state.stream ++ payload }
  else .value state

def Demux.payload (state : Demux) (pid : Nat) (unitStart : Bool) (payload : Bytes) : Outcome Demux :=
  if pid = 0 ∧ unitStart = true ∧ state.pmtPid = none then do
    let pmtPid ← ((Outcome.ofOption (psiSection payload)).bind patPmtPid).optional
    .value { state with pmtPid }
  else if some pid = state.pmtPid ∧ unitStart = true ∧ state.videoPid = none then do
    let videoPid ← ((Outcome.ofOption (psiSection payload)).bind pmtH264Pid).optional
    .value { state with videoPid }
  else if some pid = state.videoPid then state.video unitStart payload
  else .value state

def Demux.packet (state : Demux) (packet : Bytes) : Outcome Demux := do
  let sync ← .index packet 0
  if sync ≠ 0x47 then .nothing
  else
    let high ← .index packet 1
    let low ← .index packet 2
    let flags ← .index packet 3
    let control := field flags.toNat 4 2
    if field control 0 1 = 0 then .value state
    else
      let payloadStart ← if field control 1 1 = 1 then do
          let length ← .index packet 4
          .value (4 + (1 + length.toNat))
        else .value 4
      match sliceFrom packet payloadStart with
      | none => .value state
      | some payload => state.payload (field high.toNat 0 5 * 256 + low.toNat) (field high.toNat 6 1 == 1) payload

def Demux.packets (state : Demux) : List Bytes → Outcome Demux
  | [] => .value state
  | packet :: rest => (state.packet packet).bind fun next => next.packets rest

/-- The first place where two packets in a row seem to start. -/
def findSync (bytes : Bytes) : Option Nat :=
  (List.range (min bytes.length tsPacketLen)).find? fun offset =>
    bytes[offset]? == some 0x47 && bytes[offset + tsPacketLen]? == some 0x47

def tsH264ElementaryStream (bytes : Bytes) : Outcome Bytes := do
  let start ← .ofOption (findSync bytes)
  let rest ← .guarded (start ≤ bytes.length) (.value (bytes.drop start))
  let state ← Demux.start.packets (chunks tsPacketLen rest)
  if state.stream.isEmpty = true then .nothing else .value state.stream

theorem safe_findProgram {entries : List Bytes} (h : ∀ entry ∈ entries, entry.length = 4) : (findProgram entries).Safe := by
  induction entries with
  | nil => simp [findProgram]
  | cons entry entries ih =>
    have hlength := h entry List.mem_cons_self
    have hprogram : (programPid entry).Safe := by
      simp only [programPid, Outcome.bind_def, Outcome.safe_bind]
      refine ⟨Outcome.safe_index (by omega), fun high _ => ⟨Outcome.safe_index (by omega), fun low _ => ?_⟩⟩
      split
      · simp only [Outcome.safe_bind]
        exact ⟨Outcome.safe_index (by omega), fun _ _ => ⟨Outcome.safe_index (by omega), fun _ _ => Outcome.safe_value _⟩⟩
      · exact Outcome.safe_value _
    rw [findProgram, Outcome.bind_def, Outcome.safe_bind]
    refine ⟨hprogram, fun found _ => ?_⟩
    cases found with
    | none => exact ih fun e he => h e (List.mem_cons_of_mem _ he)
    | some pid => exact Outcome.safe_value pid

theorem safe_patPmtPid (table : Bytes) : (patPmtPid table).Safe := by
  simp only [patPmtPid, Outcome.bind_def, Outcome.safe_bind]
  refine ⟨Outcome.safe_ofOption _, fun tableId _ => ?_⟩
  split
  · exact Outcome.safe_nothing
  · rw [Outcome.safe_bind]
    exact ⟨Outcome.safe_ofOption _, fun entries _ => safe_findProgram fun entry => length_of_mem_chunks⟩

theorem safe_findH264 (turns : Nat) (entries : Bytes) : (findH264 turns entries).Safe := by
  induction turns generalizing entries with
  | zero => exact Outcome.safe_nothing
  | succ turns ih =>
    rw [findH264]
    split
    · exact Outcome.safe_nothing
    · next hlong =>
      simp only [Outcome.bind_def, Outcome.safe_bind]
      refine ⟨Outcome.safe_index (by omega), fun _ _ => ⟨Outcome.safe_index (by omega), fun _ _ => ⟨Outcome.safe_index (by omega),
        fun _ _ => ⟨Outcome.safe_index (by omega), fun _ _ => ⟨Outcome.safe_index (by omega), fun _ _ => ?_⟩⟩⟩⟩⟩
      split
      · exact Outcome.safe_value _
      · rw [Outcome.safe_bind]
        exact ⟨Outcome.safe_ofOption _, fun rest _ => ih rest⟩

theorem safe_pmtH264Pid (table : Bytes) : (pmtH264Pid table).Safe := by
  simp only [pmtH264Pid, Outcome.bind_def, Outcome.safe_bind]
  refine ⟨Outcome.safe_ofOption _, fun tableId _ => ?_⟩
  split
  · exact Outcome.safe_nothing
  · simp only [Outcome.safe_bind]
    exact ⟨Outcome.safe_ofOption _, fun _ _ => ⟨Outcome.safe_ofOption _, fun _ _ => ⟨Outcome.safe_ofOption _, fun _ _ => safe_findH264 _ _⟩⟩⟩

theorem safe_video (state : Demux) (unitStart : Bool) (payload : Bytes) : (state.video unitStart payload).Safe := by
  rw [Demux.video]
  split
  · split
    · exact Outcome.safe_nothing
    · next hlong =>
      rw [Outcome.safe_guarded]
      refine ⟨by omega, ?_⟩
      split
      · exact Outcome.safe_nothing
      · simp only [Outcome.bind_def, Outcome.safe_bind]
        exact ⟨Outcome.safe_index (by omega), fun _ _ => ⟨Outcome.safe_ofOption _, fun _ _ => Outcome.safe_value _⟩⟩
  · split <;> exact Outcome.safe_value _

theorem safe_payload (state : Demux) (pid : Nat) (unitStart : Bool) (payload : Bytes) : (state.payload pid unitStart payload).Safe := by
  rw [Demux.payload]
  split
  · simp only [Outcome.bind_def, Outcome.safe_bind, Outcome.safe_optional]
    exact ⟨⟨Outcome.safe_ofOption _, fun _ _ => safe_patPmtPid _⟩, fun _ _ => Outcome.safe_value _⟩
  · split
    · simp only [Outcome.bind_def, Outcome.safe_bind, Outcome.safe_optional]
      exact ⟨⟨Outcome.safe_ofOption _, fun _ _ => safe_pmtH264Pid _⟩, fun _ _ => Outcome.safe_value _⟩
    · split
      · exact safe_video state unitStart payload
      · exact Outcome.safe_value _

theorem safe_packet (state : Demux) {packet : Bytes} (h : packet.length = tsPacketLen) : (state.packet packet).Safe := by
  have hindex {i : Nat} (hi : i < 5) : (Outcome.index packet i).Safe := by
    rw [tsPacketLen] at h
    exact Outcome.safe_index (by omega)
  simp only [Demux.packet, Outcome.bind_def, Outcome.safe_bind]
  refine ⟨hindex (by decide), fun _ _ => ?_⟩
  split
  · exact Outcome.safe_nothing
  · simp only [Outcome.safe_bind]
    refine ⟨hindex (by decide), fun _ _ => ⟨hindex (by decide), fun _ _ => ⟨hindex (by decide), fun _ _ => ?_⟩⟩⟩
    split
    · exact Outcome.safe_value _
    · split
      · rw [Outcome.safe_bind]
        refine ⟨hindex (by decide), fun _ _ => ?_⟩
        rw [Outcome.value_bind]
        split
        · exact Outcome.safe_value _
        · exact safe_payload _ _ _ _
      · rw [Outcome.value_bind]
        split
        · exact Outcome.safe_value _
        · exact safe_payload _ _ _ _

theorem safe_packets (state : Demux) {packets : List Bytes} (h : ∀ packet ∈ packets, packet.length = tsPacketLen) :
    (state.packets packets).Safe := by
  induction packets generalizing state with
  | nil => exact Outcome.safe_value _
  | cons packet packets ih =>
    rw [Demux.packets, Outcome.safe_bind]
    exact ⟨safe_packet state (h packet List.mem_cons_self), fun next _ => ih next fun p hp => h p (List.mem_cons_of_mem _ hp)⟩

theorem safe_tsH264ElementaryStream (bytes : Bytes) : (tsH264ElementaryStream bytes).Safe := by
  simp only [tsH264ElementaryStream, Outcome.bind_def, Outcome.safe_bind, Outcome.safe_guarded]
  refine ⟨Outcome.safe_ofOption _, fun start hstart => ⟨⟨?_, Outcome.safe_value _⟩, fun rest _ => ⟨?_, fun state _ => ?_⟩⟩⟩
  · rw [Outcome.ofOption_eq_value, findSync, List.find?_range_eq_some] at hstart
    have hinside := List.mem_range.mp hstart.2.1
    omega
  · exact safe_packets _ fun packet => length_of_mem_chunks
  · split
    · exact Outcome.safe_nothing
    · exact Outcome.safe_value _

/-- The loop over the streams of a program ends by itself: how many turns it is given makes no difference. -/
theorem findH264_turns {turns turns' : Nat} {entries : Bytes} (h : entries.length ≤ turns) (h' : entries.length ≤ turns') :
    findH264 turns entries = findH264 turns' entries := by
  induction turns generalizing turns' entries with
  | zero =>
    cases turns' with
    | zero => rfl
    | succ turns' => rw [findH264, findH264, if_pos (by omega)]
  | succ turns ih =>
    cases turns' with
    | zero => rw [findH264, findH264, if_pos (by omega)]
    | succ turns' =>
      rw [findH264, findH264]
      split
      · rfl
      · simp only [Outcome.bind_def]
        refine Outcome.bind_congr fun _ _ => Outcome.bind_congr fun _ _ => Outcome.bind_congr fun _ _ =>
          Outcome.bind_congr fun _ _ => Outcome.bind_congr fun _ _ => ?_
        split
        · rfl
        · refine Outcome.bind_congr fun rest hrest => ?_
          rw [Outcome.ofOption_eq_value, sliceFrom] at hrest
          split at hrest
          · have hlength : rest.length ≤ entries.length - 5 := by
              rw [← Option.some.inj hrest, List.length_drop]
              omega
            exact ih (by omega) (by omega)
          · cases hrest

end StreamArena.Resolver
