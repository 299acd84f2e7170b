import Mathlib
import StreamArena.Resolver.TransportStream

/-! How a multiplexer packs the video of one program, and what is read from a part of such a stream. -/
namespace StreamArena.Resolver
open Chunks

abbrev Pid := Fin 8192

/-- Thirteen bits behind three others, and twelve behind four. -/
def word13 (reserved : Fin 8) (pid : Pid) : Bytes := [.ofNat (reserved.val * 32 + pid.val / 256), .ofNat (pid.val % 256)]
def word12 (flags : Fin 16) (n : Nat) : Bytes := [.ofNat (flags.val * 16 + n / 256), .ofNat (n % 256)]

structure Section where
  tableId : UInt8
  flags : Fin 16
  body : Bytes
  crc : Bytes
  length_crc : crc.length = 4
  length_lt : body.length + 4 < 4096

def Section.kept (table : Section) : Bytes := table.tableId :: word12 table.flags (table.body.length + 4) ++ table.body
def Section.bytes (table : Section) : Bytes := table.kept ++ table.crc

/-- The packet identifiers of the one program. -/
structure Program where
  pmtPid : Pid
  videoPid : Pid
  pmtPid_ne : pmtPid ≠ 0
  videoPid_ne : videoPid ≠ 0
  ne : pmtPid ≠ videoPid

def networkEntry (entry : Fin 8 × Pid) : Bytes := 0 :: 0 :: word13 entry.1 entry.2

/-- A table of programs that lists the one program, and networks around it. -/
def IsPat (program : Program) (table : Section) : Prop :=
  table.tableId = 0 ∧ ∃ (lead : Bytes) (numberHigh numberLow : UInt8) (before : List (Fin 8 × Pid)) (reserved : Fin 8)
    (after : List (Fin 8 × Pid)), lead.length = 5 ∧ beWord numberHigh numberLow ≠ 0 ∧
    table.body = lead ++ ((before.map networkEntry).flatten ++
      (numberHigh :: numberLow :: word13 reserved program.pmtPid ++ (after.map networkEntry).flatten))

structure ElementaryStream where
  streamType : UInt8
  reserved : Fin 8
  pid : Pid
  flags : Fin 16
  descriptors : Bytes
  length_lt : descriptors.length < 4096

def ElementaryStream.bytes (stream : ElementaryStream) : Bytes :=
  stream.streamType :: word13 stream.reserved stream.pid ++ word12 stream.flags stream.descriptors.length ++ stream.descriptors

/-- A table of the streams of the program, the first of which that is H.264 is the video. -/
def IsPmt (program : Program) (table : Section) : Prop :=
  table.tableId = 2 ∧ ∃ (lead : Bytes) (flags : Fin 16) (info : Bytes) (before : List ElementaryStream)
    (video : ElementaryStream) (after : List ElementaryStream), lead.length = 7 ∧ info.length < 4096 ∧
    (∀ stream ∈ before, stream.streamType ≠ 0x1b) ∧ video.streamType = 0x1b ∧ video.pid = program.videoPid ∧
      table.body = lead ++ (word12 flags info.length ++ (info ++
        ((before.map ElementaryStream.bytes).flatten ++ (video.bytes ++ (after.map ElementaryStream.bytes).flatten))))

/-- A payload in which a section starts, whole or up to the end of the packet. -/
def PsiPayload (table : Section) (payload : Bytes) (whole : Bool) : Prop :=
  ∃ (pointer : UInt8) (skipped rest : Bytes), payload = pointer :: skipped ++ rest ∧ skipped.length = pointer.toNat ∧
    rest.take table.bytes.length = table.bytes.take rest.length ∧ (whole = true ↔ table.kept.length ≤ rest.length)

structure PesHeader where
  streamId : UInt8
  lengthHigh : UInt8
  lengthLow : UInt8
  flagsHigh : UInt8
  flagsLow : UInt8
  data : Bytes
  length_lt : data.length < 256

def PesHeader.bytes (header : PesHeader) : Bytes :=
  [0, 0, 1, header.streamId, header.lengthHigh, header.lengthLow, header.flagsHigh, header.flagsLow,
    .ofNat header.data.length] ++ header.data

def adaptationBytes : Option Bytes → Bytes
  | none => []
  | some content => .ofNat content.length :: content

structure Packet where
  transportError : Fin 2
  unitStart : Bool
  priority : Fin 2
  pid : Pid
  scrambling : Fin 4
  counter : Fin 16
  adaptation : Option Bytes
  payload : Option Bytes
  length_eq : (adaptationBytes adaptation).length + (payload.getD []).length = 184

def Packet.encode (packet : Packet) : Bytes :=
  0x47 :: .ofNat (packet.transportError.val * 128 + packet.unitStart.toNat * 64 + packet.priority.val * 32 + packet.pid.val / 256) ::
    .ofNat (packet.pid.val % 256) ::
      .ofNat (packet.scrambling.val * 64 + packet.adaptation.isSome.toNat * 32 + packet.payload.isSome.toNat * 16 +
        packet.counter.val) :: (adaptationBytes packet.adaptation ++ packet.payload.getD [])

/-- What a packet means to a receiver of the video. -/
inductive Role where
  | silent
  | pat (whole : Bool)
  | pmt (whole : Bool)
  | unit (data : Bytes)
  | cutUnit
  | more (data : Bytes)
  deriving DecidableEq

/-- What a packet carries, before and behind it what is owed of the header of the last unit, once there is one. -/
inductive Carries (program : Program) : Option Bytes → Packet → Role → Option Bytes → Prop where
  | idle {owed : Option Bytes} {packet : Packet} (hpayload : packet.payload = none) : Carries program owed packet .silent owed
  | other {owed : Option Bytes} {packet : Packet} (hpat : packet.pid ≠ 0) (hpmt : packet.pid ≠ program.pmtPid)
      (hvideo : packet.pid ≠ program.videoPid) : Carries program owed packet .silent owed
  | tableRest {owed : Option Bytes} {packet : Packet} (hpid : packet.pid = 0 ∨ packet.pid = program.pmtPid)
      (hstart : packet.unitStart = false) : Carries program owed packet .silent owed
  | pat {owed : Option Bytes} {packet : Packet} {table : Section} {payload : Bytes} {whole : Bool} (hpid : packet.pid = 0)
      (hstart : packet.unitStart = true) (hpayload : packet.payload = some payload) (htable : IsPat program table)
      (hpsi : PsiPayload table payload whole) : Carries program owed packet (.pat whole) owed
  | pmt {owed : Option Bytes} {packet : Packet} {table : Section} {payload : Bytes} {whole : Bool}
      (hpid : packet.pid = program.pmtPid) (hstart : packet.unitStart = true) (hpayload : packet.payload = some payload)
      (htable : IsPmt program table) (hpsi : PsiPayload table payload whole) : Carries program owed packet (.pmt whole) owed
  | unit {owed : Option Bytes} {packet : Packet} {header : PesHeader} {data : Bytes} (hpid : packet.pid = program.videoPid)
      (hstart : packet.unitStart = true) (hpayload : packet.payload = some (header.bytes ++ data))
      (howed : owed.getD [] = []) : Carries program owed packet (.unit data) (some [])
  | cutUnit {owed : Option Bytes} {packet : Packet} {header : PesHeader} {payload rest : Bytes}
      (hpid : packet.pid = program.videoPid) (hstart : packet.unitStart = true) (hpayload : packet.payload = some payload)
      (hheader : payload ++ rest = header.bytes) (hrest : rest ≠ []) (howed : owed.getD [] = []) :
      Carries program owed packet .cutUnit (some rest)
  | more {owed : Bytes} {packet : Packet} {data : Bytes} (hpid : packet.pid = program.videoPid)
      (hstart : packet.unitStart = false) (hpayload : packet.payload = some (owed ++ data)) :
      Carries program (some owed) packet (.more data) (some [])
  | headerRest {packet : Packet} {payload rest : Bytes} (hpid : packet.pid = program.videoPid)
      (hstart : packet.unitStart = false) (hpayload : packet.payload = some payload) (hrest : rest ≠ []) :
      Carries program (some (payload ++ rest)) packet (.more []) (some rest)

inductive Sent (program : Program) : Option Bytes → List Packet → List Role → Prop where
  | nil {owed : Option Bytes} : Sent program owed [] []
  | cons {owed owed' : Option Bytes} {packet : Packet} {role : Role} {packets : List Packet} {roles : List Role}
      (hpacket : Carries program owed packet role owed') (hrest : Sent program owed' packets roles) :
      Sent program owed (packet :: packets) (role :: roles)

/-- A stream with one program, behind the end of a packet in which no two packets seem to start. -/
structure Multiplex where
  program : Program
  leading : Bytes
  packets : List Packet
  roles : List Role
  sent : Sent program none packets roles
  length_lt : leading.length < tsPacketLen
  noFalseSync : ∀ offset < leading.length,
    ¬((leading ++ (packets.map Packet.encode).flatten)[offset]? = some 0x47 ∧
      (leading ++ (packets.map Packet.encode).flatten)[offset + tsPacketLen]? = some 0x47)

def Multiplex.bytes (m : Multiplex) : Bytes := m.leading ++ (m.packets.map Packet.encode).flatten

/-- The roles of the packets that a part of the stream holds complete. -/
def Multiplex.complete (m : Multiplex) (count : Nat) : List Role :=
  m.roles.take ((count - m.leading.length) / tsPacketLen)

def Role.data : Role → Bytes
  | unit data => data
  | more data => data
  | _ => []

def Role.isVideo : Role → Bool
  | unit _ => true
  | cutUnit => true
  | more _ => true
  | _ => false

def videoBytes (roles : List Role) : Bytes := roles.flatMap Role.data

/-- What follows the first whole table of programs, and what follows the first whole table of streams. -/
def afterPat (roles : List Role) : List Role := (roles.dropWhile fun role => role != .pat true).tail
def afterPmt (roles : List Role) : List Role := (roles.dropWhile fun role => role != .pmt true).tail

def tuned (roles : List Role) : List Role := afterPmt (afterPat roles)

def isUnit : Role → Bool
  | .unit _ => true
  | .cutUnit => true
  | _ => false

/-- The video that is received: from the first unit behind the two tables on. -/
def received (roles : List Role) : Bytes := videoBytes ((tuned roles).dropWhile fun role => !isUnit role)

/-- The two tables come before the first unit, each whole in a packet, or in whatever way. -/
def WholeTablesFirst (roles : List Role) : Prop :=
  ∃ before between rest, roles = before ++ .pat true :: between ++ .pmt true :: rest ∧
    (∀ role ∈ before, role.isVideo = false) ∧ ∀ role ∈ between, role.isVideo = false

def TablesFirst (roles : List Role) : Prop :=
  ∃ before patWhole between pmtWhole rest, roles = before ++ .pat patWhole :: between ++ .pmt pmtWhole :: rest ∧
    (∀ role ∈ before, role.isVideo = false) ∧ ∀ role ∈ between, role.isVideo = false

/-- A second packet shows where the first one starts. -/
def Multiplex.Synced (m : Multiplex) (count : Nat) : Prop := m.leading.length + tsPacketLen < min count m.bytes.length

instance (m : Multiplex) (count : Nat) : Decidable (m.Synced count) := inferInstanceAs (Decidable (_ < _))

section
variable {reserved : Fin 8} {flags : Fin 16} {pid : Pid} {n : Nat}

theorem beWord_word13 : beWord (.ofNat (reserved.val * 32 + pid.val / 256)) (.ofNat (pid.val % 256)) =
    reserved.val * 8192 + pid.val := by
  have hreserved := reserved.isLt
  have hpid := pid.isLt
  have hhigh : reserved.val * 32 + pid.val / 256 < 256 := by omega
  have hlow : pid.val % 256 < 256 := by omega
  rw [beWord, UInt8.toNat_ofNat_of_lt' hhigh, UInt8.toNat_ofNat_of_lt' hlow]
  omega

theorem beWord_word12 (hn : n < 4096) : beWord (.ofNat (flags.val * 16 + n / 256)) (.ofNat (n % 256)) = flags.val * 4096 + n := by
  have hflags := flags.isLt
  have hhigh : flags.val * 16 + n / 256 < 256 := by omega
  have hlow : n % 256 < 256 := by omega
  rw [beWord, UInt8.toNat_ofNat_of_lt' hhigh, UInt8.toNat_ofNat_of_lt' hlow]
  omega

theorem field_word13 : field (reserved.val * 8192 + pid.val) 0 13 = pid.val := by
  have hpid := pid.isLt
  simp only [field]
  omega

theorem field_word12 (hn : n < 4096) : field (flags.val * 4096 + n) 0 12 = n := by
  simp only [field]
  omega

@[simp] theorem length_word13 : (word13 reserved pid).length = 2 := rfl
@[simp] theorem length_word12 : (word12 flags n).length = 2 := rfl

end

theorem sliceFrom_append {front rest : Bytes} {n : Nat} (h : front.length = n) : sliceFrom (front ++ rest) n = some rest := by
  simp [sliceFrom, ← h]

theorem sliceTo_append (front rest : Bytes) : sliceTo (front ++ rest) front.length = some front := by
  simp [sliceTo]

section
variable {table : Section} {payload rest : Bytes} {whole : Bool}

theorem Section.length_kept (table : Section) : table.kept.length = 3 + table.body.length := by
  simp [kept]
  omega

theorem Section.length_bytes (table : Section) : table.bytes.length = 7 + table.body.length := by
  rw [bytes, List.length_append, table.length_kept, table.length_crc]
  omega

/-- As much of a section as is there: all of what is kept of it, or less. -/
theorem agreed_cases (h : rest.take table.bytes.length = table.bytes.take rest.length) :
    (table.kept.length ≤ rest.length ∧ ∃ more, rest = table.kept ++ more) ∨
      (rest.length < table.kept.length ∧ rest = table.kept.take rest.length) := by
  have hbytes := table.length_bytes
  have hkept := table.length_kept
  rcases Nat.lt_or_ge rest.length table.kept.length with hlt | hge
  · refine .inr ⟨hlt, ?_⟩
    rw [List.take_of_length_le (by omega), Section.bytes, List.take_append_of_le_length (by omega)] at h
    exact h
  · refine .inl ⟨hge, rest.drop table.kept.length, ?_⟩
    have hfirst := congrArg (List.take table.kept.length) h
    rw [List.take_take, List.take_take, Nat.min_eq_left (by omega), Nat.min_eq_left hge, Section.bytes, List.take_left] at hfirst
    calc rest = rest.take table.kept.length ++ rest.drop table.kept.length := (List.take_append_drop _ _).symm
      _ = table.kept ++ rest.drop table.kept.length := by rw [hfirst]

/-- A section is read where it is whole but for its checksum. -/
theorem psiSection_payload (h : PsiPayload table payload whole) :
    psiSection payload = if whole = true then some table.kept else none := by
  obtain ⟨pointer, skipped, rest, rfl, hskipped, hagreed, hwhole⟩ := h
  have hlength : table.body.length + 4 < 4096 := table.length_lt
  have hpointer : (pointer :: skipped ++ rest)[0]? = some pointer := rfl
  have hrest : sliceFrom (pointer :: skipped ++ rest) (1 + pointer.toNat) = some rest := by
    have hcount : 1 + pointer.toNat = (pointer :: skipped).length := by
      rw [List.length_cons, hskipped, Nat.add_comm]
    exact sliceFrom_append hcount.symm
  have hfield : field (beWord (.ofNat (table.flags.val * 16 + (table.body.length + 4) / 256))
      (.ofNat ((table.body.length + 4) % 256))) 0 12 = table.body.length + 4 := by
    rw [beWord_word12 hlength, field_word12 hlength]
  rw [psiSection, hpointer]
  simp only [Option.bind_eq_bind, Option.bind_some, hrest]
  rcases agreed_cases hagreed with ⟨hge, more, hmore⟩ | ⟨hlt, hshort⟩
  · have hstop : 3 + (table.body.length + 4 - 4) = table.kept.length := by
      rw [table.length_kept, Nat.add_sub_cancel]
    rw [if_pos (hwhole.mpr hge), hmore]
    simp only [Section.kept, word12, List.cons_append, List.getElem?_cons_succ, List.getElem?_cons_zero, Option.bind_some, hfield]
    rw [if_pos (by omega), hstop]
    exact sliceTo_append table.kept more
  · have hnot : ¬ whole = true := fun h => absurd (hwhole.mp h) (by omega)
    rw [if_neg hnot]
    have hkept := table.length_kept
    rcases Nat.lt_or_ge rest.length 3 with hthree | hthree
    · have hnone : rest[2]? = none := List.getElem?_eq_none (by omega)
      rw [hnone]
      cases rest[1]? <;> rfl
    · have hget {i : Nat} (hi : i < 3) : rest[i]? = table.kept[i]? := by
        rw [hshort, List.getElem?_take_of_lt (by omega)]
      rw [hget (by omega), hget (by omega)]
      simp only [Section.kept, word12, List.cons_append, List.getElem?_cons_succ, List.getElem?_cons_zero, Option.bind_some, hfield]
      rw [if_pos (by omega), sliceTo, if_neg (by omega)]

end

section
variable {program : Program} {table : Section}

theorem length_networkEntry (entry : Fin 8 × Pid) : (networkEntry entry).length = 4 := rfl

theorem programPid_networkEntry (entry : Fin 8 × Pid) : programPid (networkEntry entry) = .value none := by
  have hzero : ¬ beWord 0 0 ≠ 0 := by decide
  have hhigh : Outcome.index (networkEntry entry) 0 = .value 0 := rfl
  have hlow : Outcome.index (networkEntry entry) 1 = .value 0 := rfl
  rw [programPid, hhigh, hlow, Outcome.bind_def, Outcome.value_bind, Outcome.bind_def, Outcome.value_bind, if_neg hzero]

theorem programPid_entry {numberHigh numberLow : UInt8} {reserved : Fin 8} {pid : Pid} (h : beWord numberHigh numberLow ≠ 0) :
    programPid (numberHigh :: numberLow :: word13 reserved pid) = .value (some pid.val) := by
  have hword := @field_word13 reserved pid
  rw [← beWord_word13] at hword
  calc programPid (numberHigh :: numberLow :: word13 reserved pid)
    _ = if beWord numberHigh numberLow ≠ 0 then .value (some (field (beWord _ _) 0 13)) else .value none := rfl
    _ = .value (some pid.val) := by rw [if_pos h, hword]

/-- The networks before the program are passed over. -/
theorem findProgram_entries {before : List (Fin 8 × Pid)} {entry : Bytes} {pid : Nat} {after : List Bytes}
    (h : programPid entry = .value (some pid)) :
    findProgram (before.map networkEntry ++ entry :: after) = .value pid := by
  induction before with
  | nil =>
    rw [List.map_nil, List.nil_append, findProgram, Outcome.bind_def, h]
    rfl
  | cons network before ih =>
    rw [List.map_cons, List.cons_append, findProgram, Outcome.bind_def, programPid_networkEntry]
    exact ih

theorem chunks_entries (before : List (Fin 8 × Pid)) (rest : Bytes) :
    chunks 4 ((before.map networkEntry).flatten ++ rest) = before.map networkEntry ++ chunks 4 rest := by
  induction before with
  | nil => rfl
  | cons entry before ih =>
    rw [List.map_cons, List.flatten_cons, List.append_assoc, chunks_append (by decide) (length_networkEntry entry), ih]
    rfl

theorem patPmtPid_kept (h : IsPat program table) : patPmtPid table.kept = .value program.pmtPid.val := by
  obtain ⟨hid, lead, numberHigh, numberLow, before, reserved, after, hlead, hnumber, hbody⟩ := h
  have hentry : (numberHigh :: numberLow :: word13 reserved program.pmtPid).length = 4 := rfl
  have hentries : sliceFrom table.kept 8 = some ((before.map networkEntry).flatten ++
      (numberHigh :: numberLow :: word13 reserved program.pmtPid ++ (after.map networkEntry).flatten)) := by
    have hfront : (table.tableId :: word12 table.flags (table.body.length + 4) ++ lead).length = 8 := by simp [hlead]
    have hkept : table.kept = (table.tableId :: word12 table.flags (table.body.length + 4) ++ lead) ++
        ((before.map networkEntry).flatten ++
          (numberHigh :: numberLow :: word13 reserved program.pmtPid ++ (after.map networkEntry).flatten)) := by
      rw [Section.kept, List.append_assoc, ← hbody]
    rw [hkept]
    exact sliceFrom_append hfront
  have hfirst : table.kept[0]? = some 0 := by rw [← hid]; rfl
  have hzero : ¬ (0 : UInt8) ≠ 0 := by simp
  rw [patPmtPid, hfirst, Outcome.ofOption_some]
  simp only [Outcome.bind_def, Outcome.value_bind]
  rw [if_neg hzero, hentries, Outcome.ofOption_some, Outcome.value_bind, chunks_entries, chunks_append (by decide) hentry]
  exact findProgram_entries (programPid_entry hnumber)

theorem ElementaryStream.length_bytes (stream : ElementaryStream) : stream.bytes.length = 5 + stream.descriptors.length := by
  simp [bytes]
  omega

/-- One turn of the loop over the streams of a program. -/
theorem findH264_stream (turns : Nat) (stream : ElementaryStream) (rest : Bytes) :
    findH264 (turns + 1) (stream.bytes ++ rest) =
      if stream.streamType = 0x1b then .value stream.pid.val else findH264 turns rest := by
  have hlength := stream.length_bytes
  have hpid := @field_word13 stream.reserved stream.pid
  rw [← beWord_word13] at hpid
  have hdescriptors := @field_word12 stream.flags _ stream.length_lt
  rw [← beWord_word12 stream.length_lt] at hdescriptors
  have hrest : sliceFrom (stream.bytes ++ rest) (5 + stream.descriptors.length) = some rest := by
    exact sliceFrom_append hlength
  have hshort : ¬ (stream.bytes ++ rest).length < 5 := by
    rw [List.length_append]
    omega
  rw [findH264, if_neg hshort]
  calc _ = if stream.streamType = 0x1b then .value (field (beWord _ _) 0 13)
        else (Outcome.ofOption (sliceFrom (stream.bytes ++ rest) (5 + field (beWord _ _) 0 12))).bind fun rest =>
          findH264 turns rest := rfl
    _ = _ := by
      rw [hpid, hdescriptors, hrest]
      rfl

theorem findH264_streams {before : List ElementaryStream} {video : ElementaryStream} {rest : Bytes} {turns : Nat}
    (hbefore : ∀ stream ∈ before, stream.streamType ≠ 0x1b) (hvideo : video.streamType = 0x1b) (hturns : before.length < turns) :
    findH264 turns ((before.map ElementaryStream.bytes).flatten ++ (video.bytes ++ rest)) = .value video.pid.val := by
  induction before generalizing turns with
  | nil =>
    obtain ⟨turns, rfl⟩ := Nat.exists_eq_add_of_lt hturns
    rw [List.length_nil, Nat.zero_add, List.map_nil, List.flatten_nil, List.nil_append, findH264_stream, if_pos hvideo]
  | cons stream before ih =>
    obtain ⟨turns, rfl⟩ := Nat.exists_eq_add_of_lt hturns
    rw [List.map_cons, List.flatten_cons, List.append_assoc, findH264_stream, if_neg (hbefore stream List.mem_cons_self)]
    refine ih (fun s hs => hbefore s (List.mem_cons_of_mem _ hs)) ?_
    simp only [List.length_cons]
    omega

theorem length_le_flatten (streams : List ElementaryStream) :
    5 * streams.length ≤ (streams.map ElementaryStream.bytes).flatten.length := by
  induction streams with
  | nil => simp
  | cons stream streams ih =>
    rw [List.map_cons, List.flatten_cons, List.length_append, List.length_cons, stream.length_bytes]
    omega

theorem pmtH264Pid_kept (h : IsPmt program table) : pmtH264Pid table.kept = .value program.videoPid.val := by
  obtain ⟨hid, lead, flags, info, before, video, after, hlead, hinfo, hbefore, hvideo, hpid, hbody⟩ := h
  have hfront : (table.tableId :: word12 table.flags (table.body.length + 4) ++ lead).length = 10 := by simp [hlead]
  have hkept : table.kept = (table.tableId :: word12 table.flags (table.body.length + 4) ++ lead) ++
      (word12 flags info.length ++ (info ++ ((before.map ElementaryStream.bytes).flatten ++
        (video.bytes ++ (after.map ElementaryStream.bytes).flatten)))) := by
    rw [Section.kept, List.append_assoc, ← hbody]
  have hword {i : Nat} (hi : i < 2) : table.kept[10 + i]? = (word12 flags info.length)[i]? := by
    rw [hkept, ← hfront, List.getElem?_append_right (by omega), Nat.add_sub_cancel_left,
      List.getElem?_append_left (by rw [length_word12]; exact hi)]
  have hhigh : table.kept[10]? = some (.ofNat (flags.val * 16 + info.length / 256)) := hword (by decide : 0 < 2)
  have hlow : table.kept[11]? = some (.ofNat (info.length % 256)) := hword (by decide : 1 < 2)
  have hfield := @field_word12 flags _ hinfo
  rw [← beWord_word12 hinfo] at hfield
  have hentries : sliceFrom table.kept (12 + info.length) = some ((before.map ElementaryStream.bytes).flatten ++
      (video.bytes ++ (after.map ElementaryStream.bytes).flatten)) := by
    have hlength : ((table.tableId :: word12 table.flags (table.body.length + 4) ++ lead) ++ (word12 flags info.length ++ info)).length =
        12 + info.length := by
      rw [List.length_append, hfront, List.length_append, length_word12]
      omega
    rw [hkept, ← List.append_assoc (word12 flags info.length), ← List.append_assoc]
    exact sliceFrom_append hlength
  have hfirst : table.kept[0]? = some 2 := by rw [← hid]; rfl
  have htwo : ¬ (2 : UInt8) ≠ 2 := by simp
  rw [pmtH264Pid, hfirst, hhigh, hlow, Outcome.ofOption_some, Outcome.ofOption_some, Outcome.ofOption_some]
  simp only [Outcome.bind_def, Outcome.value_bind]
  rw [if_neg htwo, hfield, hentries, Outcome.ofOption_some, Outcome.value_bind, ← hpid]
  refine findH264_streams hbefore hvideo ?_
  have hle := length_le_flatten before
  have hfive := video.length_bytes
  rw [List.length_append, List.length_append]
  omega

end

theorem field_control_payload (adaptation payload : Bool) : field (adaptation.toNat * 2 + payload.toNat) 0 1 = payload.toNat := by
  revert adaptation payload
  decide

theorem field_control_adaptation (adaptation payload : Bool) :
    field (adaptation.toNat * 2 + payload.toNat) 1 1 = adaptation.toNat := by
  revert adaptation payload
  decide

theorem Packet.length_encode (packet : Packet) : packet.encode.length = tsPacketLen := by
  have hlength := packet.length_eq
  simp only [encode, List.length_cons, List.length_append, tsPacketLen]
  omega

section
variable (packet : Packet)

private def Packet.highByte : Nat :=
  packet.transportError.val * 128 + packet.unitStart.toNat * 64 + packet.priority.val * 32 + packet.pid.val / 256

private def Packet.flagsByte : Nat :=
  packet.scrambling.val * 64 + packet.adaptation.isSome.toNat * 32 + packet.payload.isSome.toNat * 16 + packet.counter.val

theorem Packet.pid_encode : field (UInt8.ofNat packet.highByte).toNat 0 5 * 256 + (UInt8.ofNat (packet.pid.val % 256)).toNat =
    packet.pid.val := by
  have herror := packet.transportError.isLt
  have hpriority := packet.priority.isLt
  have hpid := packet.pid.isLt
  have hstart := packet.unitStart.toNat_le
  have hhigh : packet.highByte < 256 := by
    rw [highByte]
    omega
  have hlow : packet.pid.val % 256 < 256 := by omega
  rw [UInt8.toNat_ofNat_of_lt' hhigh, UInt8.toNat_ofNat_of_lt' hlow, field, highByte]
  omega

theorem Packet.unitStart_encode : (field (UInt8.ofNat packet.highByte).toNat 6 1 == 1) = packet.unitStart := by
  have herror := packet.transportError.isLt
  have hpriority := packet.priority.isLt
  have hpid := packet.pid.isLt
  have hstart := packet.unitStart.toNat_le
  have hhigh : packet.highByte < 256 := by
    rw [highByte]
    omega
  have hfield : field packet.highByte 6 1 = packet.unitStart.toNat := by
    rw [field, highByte]
    omega
  rw [UInt8.toNat_ofNat_of_lt' hhigh, hfield]
  cases packet.unitStart <;> rfl

theorem Packet.control_encode : field (UInt8.ofNat packet.flagsByte).toNat 4 2 =
    packet.adaptation.isSome.toNat * 2 + packet.payload.isSome.toNat := by
  have hscrambling := packet.scrambling.isLt
  have hcounter := packet.counter.isLt
  have hadaptation := packet.adaptation.isSome.toNat_le
  have hpayload := packet.payload.isSome.toNat_le
  have hflags : packet.flagsByte < 256 := by
    rw [flagsByte]
    omega
  rw [UInt8.toNat_ofNat_of_lt' hflags, field, flagsByte]
  omega

/-- The payload of a packet stands behind its adaptation field. -/
theorem Packet.sliceFrom_encode : sliceFrom packet.encode (4 + (adaptationBytes packet.adaptation).length) =
    some (packet.payload.getD []) := by
  have hsplit : packet.encode = (packet.encode.take 4 ++ adaptationBytes packet.adaptation) ++ packet.payload.getD [] := by
    simp [encode]
  rw [hsplit]
  apply sliceFrom_append
  rw [List.length_append, List.length_take, packet.length_encode]
  rfl

theorem packet_encode (state : Demux) : state.packet packet.encode = match packet.payload with
    | none => .value state
    | some payload => state.payload packet.pid.val packet.unitStart payload := by
  have hsync : Outcome.index packet.encode 0 = .value 0x47 := rfl
  have hhigh : Outcome.index packet.encode 1 = .value (.ofNat packet.highByte) := rfl
  have hlow : Outcome.index packet.encode 2 = .value (.ofNat (packet.pid.val % 256)) := rfl
  have hflags : Outcome.index packet.encode 3 = .value (.ofNat packet.flagsByte) := rfl
  have hslice := packet.sliceFrom_encode
  have hzero : ¬ (0x47 : UInt8) ≠ 0x47 := by simp
  rw [Demux.packet, hsync, hhigh, hlow, hflags]
  simp only [Outcome.bind_def, Outcome.value_bind]
  rw [if_neg hzero, packet.control_encode, packet.pid_encode, packet.unitStart_encode, field_control_payload,
    field_control_adaptation]
  cases hpayload : packet.payload with
  | none => rfl
  | some payload =>
    have hcarried : ¬ (some payload).isSome.toNat = 0 := by simp
    rw [hpayload] at hslice
    rw [if_neg hcarried]
    cases hadaptation : packet.adaptation with
    | none =>
      rw [hadaptation] at hslice
      have hnone : ¬ (none : Option Bytes).isSome.toNat = 1 := by simp
      simp only [adaptationBytes, List.length_nil, Nat.add_zero] at hslice
      rw [if_neg hnone, hslice]
      rfl
    | some content =>
      rw [hadaptation] at hslice
      have hsome : (some content).isSome.toNat = 1 := rfl
      have hfits : content.length < 256 := by
        have hlength := packet.length_eq
        rw [hadaptation] at hlength
        simp only [adaptationBytes, List.length_cons] at hlength
        omega
      have hlength : Outcome.index packet.encode 4 = .value (.ofNat content.length) := by
        apply Outcome.index_eq_value
        simp [Packet.encode, hadaptation, adaptationBytes]
      simp only [adaptationBytes, List.length_cons] at hslice
      rw [if_pos hsome, hlength, Outcome.value_bind, UInt8.toNat_ofNat_of_lt' hfits, Nat.add_comm 1, hslice]
      rfl

end

/-- How far a receiver of the one program is. -/
inductive Phase where
  | untuned
  | seen
  | tuned (stream : Bytes) (started : Bool)

def Phase.state (program : Program) : Phase → Demux
  | untuned => Demux.start
  | seen => ⟨some program.pmtPid.val, none, [], false⟩
  | tuned stream started => ⟨some program.pmtPid.val, some program.videoPid.val, stream, started⟩

def Phase.stream : Phase → Bytes
  | tuned stream _ => stream
  | _ => []

def Phase.hear : Phase → Role → Option Phase
  | untuned, .pat true => some seen
  | seen, .pmt true => some (tuned [] false)
  | tuned stream _, .unit data => some (tuned (stream ++ data) true)
  | tuned _ _, .cutUnit => none
  | tuned stream true, .more data => some (tuned (stream ++ data) true)
  | phase, _ => some phase

def Phase.hearAll : Phase → List Role → Option Phase
  | phase, [] => some phase
  | phase, role :: roles => (phase.hear role).bind fun next => next.hearAll roles

/-- Once a unit was received, nothing is owed of its header. -/
def Phase.Fits : Phase → Option Bytes → Prop
  | tuned _ true, owed => owed = some []
  | _, _ => True

section
variable {program : Program} {phase : Phase} {owed owed' : Option Bytes} {packet : Packet} {role : Role} {payload : Bytes}

attribute [local simp] Phase.hear

theorem Phase.payload_other (start : Bool) (hpat : packet.pid ≠ 0) (hpmt : packet.pid ≠ program.pmtPid)
    (hvideo : packet.pid ≠ program.videoPid) :
    (phase.state program).payload packet.pid.val start payload = .value (phase.state program) := by
  have hzero : ¬ packet.pid.val = 0 := fun h => hpat (Fin.ext h)
  have hpmt : ¬ packet.pid.val = program.pmtPid.val := fun h => hpmt (Fin.ext h)
  have hvideo : ¬ packet.pid.val = program.videoPid.val := fun h => hvideo (Fin.ext h)
  cases phase <;> simp [Demux.payload, state, Demux.start, hzero, hpmt, hvideo]

theorem Phase.payload_tableRest (hpid : packet.pid = 0 ∨ packet.pid = program.pmtPid) :
    (phase.state program).payload packet.pid.val false payload = .value (phase.state program) := by
  have hvideo : ¬ packet.pid.val = program.videoPid.val := by
    intro h
    rcases hpid with hpid | hpid
    · exact program.videoPid_ne ((Fin.ext h).symm.trans hpid)
    · exact program.ne (hpid.symm.trans (Fin.ext h))
  cases phase <;> simp [Demux.payload, state, Demux.start, hvideo]

theorem Phase.payload_pat {table : Section} {whole : Bool} (htable : IsPat program table) (hpsi : PsiPayload table payload whole) :
    ∃ next, phase.hear (.pat whole) = some next ∧ (phase.state program).payload 0 true payload = .value (next.state program) ∧
      (next = .seen ∨ next = phase) := by
  have hpmt : ¬ 0 = program.pmtPid.val := fun h => program.pmtPid_ne (Fin.ext h.symm)
  have hvideo : ¬ 0 = program.videoPid.val := fun h => program.videoPid_ne (Fin.ext h.symm)
  have hsection := psiSection_payload hpsi
  have hpat := patPmtPid_kept htable
  cases phase with
  | untuned => cases whole <;> simp [hear, Demux.payload, state, Demux.start, hsection, hpat, Outcome.bind_def]
  | seen => cases whole <;> simp [hear, Demux.payload, state, hpmt]
  | tuned stream started => cases whole <;> simp [hear, Demux.payload, state, hpmt, hvideo]

theorem Phase.payload_pmt {table : Section} {whole : Bool} (htable : IsPmt program table) (hpsi : PsiPayload table payload whole) :
    ∃ next, phase.hear (.pmt whole) = some next ∧
      (phase.state program).payload program.pmtPid.val true payload = .value (next.state program) ∧
        (next = .tuned [] false ∨ next = phase) := by
  have hzero : ¬ program.pmtPid.val = 0 := fun h => program.pmtPid_ne (Fin.ext h)
  have hvideo : ¬ program.pmtPid.val = program.videoPid.val := fun h => program.ne (Fin.ext h)
  have hsection := psiSection_payload hpsi
  have hpmt := pmtH264Pid_kept htable
  cases phase with
  | untuned => cases whole <;> simp [hear, Demux.payload, state, Demux.start, hzero]
  | seen => cases whole <;> simp [hear, Demux.payload, state, hzero, hsection, hpmt, Outcome.bind_def]
  | tuned stream started => cases whole <;> simp [hear, Demux.payload, state, hzero, hvideo]

/-- A packet of the video is heard only when the receiver is tuned. -/
theorem Phase.payload_video (start : Bool) : (phase.state program).payload program.videoPid.val start payload =
    match phase with
    | .tuned _ _ => (phase.state program).video start payload
    | _ => .value (phase.state program) := by
  have hzero : ¬ program.videoPid.val = 0 := fun h => program.videoPid_ne (Fin.ext h)
  have hpmt : ¬ program.videoPid.val = program.pmtPid.val := fun h => program.ne (Fin.ext h.symm)
  cases phase <;> simp [Demux.payload, state, Demux.start, hzero, hpmt]

theorem PesHeader.length_bytes (header : PesHeader) : header.bytes.length = 9 + header.data.length := by
  simp [bytes]
  omega

theorem video_unit (state : Demux) (header : PesHeader) (data : Bytes) : state.video true (header.bytes ++ data) =
    .value { state with stream := state.stream ++ data, pesStarted := true } := by
  have hlength := header.length_bytes
  have hlong : ¬ (header.bytes ++ data).length < 9 := by
    rw [List.length_append]
    omega
  have hthree : 3 ≤ (header.bytes ++ data).length := by omega
  have hcode : ¬ (header.bytes ++ data).take 3 ≠ [0, 0, 1] := fun h => h rfl
  have hcount : Outcome.index (header.bytes ++ data) 8 = .value (.ofNat header.data.length) := rfl
  rw [Demux.video, if_pos rfl, if_neg hlong, Outcome.guarded, if_pos hthree, if_neg hcode, hcount, Outcome.bind_def,
    Outcome.value_bind, UInt8.toNat_ofNat_of_lt' header.length_lt, ← hlength, sliceFrom_append rfl]
  rfl

/-- A unit whose header goes on in the next packet ends everything. -/
theorem video_cutUnit (state : Demux) {header : PesHeader} {rest : Bytes} (h : payload ++ rest = header.bytes) (hrest : rest ≠ []) :
    state.video true payload = .nothing := by
  have hlength := congrArg List.length h
  rw [header.length_bytes, List.length_append] at hlength
  have hpos := List.length_pos_iff.mpr hrest
  rcases Nat.lt_or_ge payload.length 9 with hshort | hlong
  · rw [Demux.video, if_pos rfl, if_pos hshort]
  · have hget {i : Nat} (hi : i < 9) : payload[i]? = header.bytes[i]? := by
      rw [← h, List.getElem?_append_left (by omega)]
    have htake : payload.take 3 = [0, 0, 1] := by
      have hfirst : (payload ++ rest).take 3 = payload.take 3 := List.take_append_of_le_length (by omega)
      rw [← hfirst, h]
      rfl
    have hcode : ¬ payload.take 3 ≠ [0, 0, 1] := fun hne => hne htake
    have hcount : Outcome.index payload 8 = .value (.ofNat header.data.length) := Outcome.index_eq_value (hget (by decide))
    have hnone : sliceFrom payload (9 + header.data.length) = none := by
      rw [sliceFrom, if_neg (by omega)]
    rw [Demux.video, if_pos rfl, if_neg (by omega), Outcome.guarded, if_pos (by omega), if_neg hcode, hcount, Outcome.bind_def,
      Outcome.value_bind, UInt8.toNat_ofNat_of_lt' header.length_lt, hnone]
    rfl

/-- What the loop does at a packet is what a receiver makes of its role. -/
theorem Phase.step (hfits : phase.Fits owed) (h : Carries program owed packet role owed') :
    (phase.state program).packet packet.encode = (match phase.hear role with
      | some next => .value (next.state program)
      | none => .nothing) ∧ ∀ next, phase.hear role = some next → next.Fits owed' := by
  rw [packet_encode]
  cases h with
  | idle hpayload =>
    rw [hpayload]
    cases phase <;> simp_all [hear]
  | other hpat hpmt hvideo =>
    have hsame : phase.hear .silent = some phase := by cases phase <;> rfl
    rw [hsame]
    refine ⟨?_, fun next hnext => Option.some.inj hnext ▸ hfits⟩
    cases packet.payload with
    | none => rfl
    | some payload => exact payload_other packet.unitStart hpat hpmt hvideo
  | tableRest hpid hstart =>
    have hsame : phase.hear .silent = some phase := by cases phase <;> rfl
    rw [hsame, hstart]
    refine ⟨?_, fun next hnext => Option.some.inj hnext ▸ hfits⟩
    cases packet.payload with
    | none => rfl
    | some payload => exact payload_tableRest hpid
  | pat hpid hstart hpayload htable hpsi =>
    obtain ⟨next, hnext, hstep, hkind⟩ := @Phase.payload_pat _ phase _ _ _ htable hpsi
    rw [hpayload, hnext, hstart, hpid]
    refine ⟨hstep, fun other hother => ?_⟩
    rw [← Option.some.inj hother]
    rcases hkind with rfl | rfl
    · trivial
    · exact hfits
  | pmt hpid hstart hpayload htable hpsi =>
    obtain ⟨next, hnext, hstep, hkind⟩ := @Phase.payload_pmt _ phase _ _ _ htable hpsi
    rw [hpayload, hnext, hstart, hpid]
    refine ⟨hstep, fun other hother => ?_⟩
    rw [← Option.some.inj hother]
    rcases hkind with rfl | rfl
    · trivial
    · exact hfits
  | unit hpid hstart hpayload howed =>
    rw [hpayload, hstart, hpid]
    simp only [payload_video, video_unit]
    cases phase <;> simp [hear, state, Fits]
  | cutUnit hpid hstart hpayload hheader hrest howed =>
    rw [hpayload, hstart, hpid]
    simp only [payload_video, video_cutUnit _ hheader hrest]
    cases phase <;> simp [hear, Fits]
  | more hpid hstart hpayload =>
    rw [hpayload, hstart, hpid]
    simp only [payload_video]
    cases phase with
    | untuned => simp [hear, Fits]
    | seen => simp [hear, Fits]
    | tuned stream started => cases started <;> simp_all [hear, state, Demux.video, Fits]
  | headerRest hpid hstart hpayload hrest =>
    rw [hpayload, hstart, hpid]
    simp only [payload_video]
    cases phase with
    | untuned => simp [hear, Fits]
    | seen => simp [hear, Fits]
    | tuned stream started => cases started <;> simp_all [hear, state, Demux.video, Fits]

/-- The loop over the packets of a stream is a receiver that hears their roles. -/
theorem Phase.run {packets : List Packet} {roles : List Role} (hfits : phase.Fits owed) (h : Sent program owed packets roles) :
    (phase.state program).packets (packets.map Packet.encode) = match phase.hearAll roles with
      | some last => .value (last.state program)
      | none => .nothing := by
  induction h generalizing phase with
  | nil => rfl
  | cons hpacket hrest ih =>
    obtain ⟨hstep, hkept⟩ := Phase.step hfits hpacket
    rw [List.map_cons, Demux.packets, hstep, hearAll]
    cases hnext : phase.hear _ with
    | none => rfl
    | some next => exact ih (hkept next hnext)

end

/-- Whoever is tuned receives from the first unit on, unless a unit is cut. -/
theorem hearAll_tuned (stream : Bytes) (started : Bool) (roles : List Role) :
    ((Phase.tuned stream started).hearAll roles).map Phase.stream = if .cutUnit ∈ roles then none else
      some (stream ++ if started = true then videoBytes roles else videoBytes (roles.dropWhile fun role => !isUnit role)) := by
  induction roles generalizing stream started with
  | nil => cases started <;> simp [Phase.hearAll, Phase.stream, videoBytes]
  | cons role roles ih =>
    cases role <;> cases started <;>
      simp [Phase.hearAll, Phase.hear, ih, videoBytes, Role.data, isUnit, List.append_assoc]

theorem hearAll_seen (roles : List Role) : (Phase.seen.hearAll roles).map Phase.stream =
    ((Phase.tuned [] false).hearAll (afterPmt roles)).map Phase.stream := by
  induction roles with
  | nil => rfl
  | cons role roles ih =>
    rcases Decidable.em (role = .pmt true) with rfl | hrole
    · simp [Phase.hearAll, Phase.hear, afterPmt]
    · have hskip : afterPmt (role :: roles) = afterPmt roles := by
        simp [afterPmt, hrole]
      rw [hskip, ← ih]
      cases role with
      | pmt whole => cases whole <;> simp_all [Phase.hearAll, Phase.hear]
      | _ => rfl

theorem hearAll_untuned (roles : List Role) : (Phase.untuned.hearAll roles).map Phase.stream =
    (Phase.seen.hearAll (afterPat roles)).map Phase.stream := by
  induction roles with
  | nil => rfl
  | cons role roles ih =>
    rcases Decidable.em (role = .pat true) with rfl | hrole
    · simp [Phase.hearAll, Phase.hear, afterPat]
    · have hskip : afterPat (role :: roles) = afterPat roles := by
        simp [afterPat, hrole]
      rw [hskip, ← ih]
      cases role with
      | pat whole => cases whole <;> simp_all [Phase.hearAll, Phase.hear]
      | _ => rfl

theorem hearAll_roles (roles : List Role) : (Phase.untuned.hearAll roles).map Phase.stream =
    if .cutUnit ∈ tuned roles then none else some (received roles) := by
  rw [hearAll_untuned, hearAll_seen, hearAll_tuned]
  rfl

section
variable {program : Program} {owed : Option Bytes} {packets : List Packet} {roles : List Role}

theorem Sent.take (h : Sent program owed packets roles) (count : Nat) :
    Sent program owed (packets.take count) (roles.take count) := by
  induction h generalizing count with
  | nil => simpa using Sent.nil
  | cons hpacket hrest ih =>
    cases count with
    | zero => exact .nil
    | succ count => exact .cons hpacket (ih count)

theorem Sent.packets_eq (h : Sent program none packets roles) : Demux.start.packets (packets.map Packet.encode) =
    match Phase.untuned.hearAll roles with
    | some last => .value (last.state program)
    | none => .nothing :=
  @Phase.run _ .untuned _ _ _ trivial h

theorem Phase.stream_state (phase : Phase) : (phase.state program).stream = phase.stream := by
  cases phase <;> rfl

/-- Before the first unit, no packet goes on with one. -/
theorem Sent.videoBytes_dropWhile (h : Sent program none packets roles) :
    videoBytes (roles.dropWhile fun role => !isUnit role) = videoBytes roles := by
  generalize hnone : (none : Option Bytes) = start at h
  induction h with
  | nil => rfl
  | cons hpacket hrest ih =>
    subst hnone
    cases hpacket <;> simp_all [isUnit, videoBytes, Role.data]

end

/-- What stands behind a mark before which no unit starts has the same units. -/
theorem dropWhile_behind {mark : Role} {before rest : List Role} (hmark : isUnit mark = false)
    (hbefore : ∀ role ∈ before, isUnit role = false) : ∃ left, (∀ role ∈ left, isUnit role = false) ∧
      ((before ++ mark :: rest).dropWhile fun role => role != mark).tail = left ++ rest := by
  induction before with
  | nil => exact ⟨[], by simp, by simp⟩
  | cons role before ih =>
    have hbefore' : ∀ role ∈ before, isUnit role = false := fun r hr => hbefore r (List.mem_cons_of_mem _ hr)
    by_cases hrole : role = mark
    · refine ⟨before ++ [mark], ?_, ?_⟩
      · intro other hother
        rcases List.mem_append.mp hother with hother | hother
        · exact hbefore' other hother
        · rw [List.mem_singleton.mp hother, hmark]
      · simp [hrole]
    · obtain ⟨left, hleft, heq⟩ := ih hbefore'
      exact ⟨left, hleft, by simpa [List.dropWhile_cons, hrole] using heq⟩

theorem dropWhile_quiet {quiet rest : List Role} (h : ∀ role ∈ quiet, isUnit role = false) :
    ((quiet ++ rest).dropWhile fun role => !isUnit role) = rest.dropWhile fun role => !isUnit role := by
  apply List.dropWhile_append_of_pos
  intro role hrole
  rw [h role hrole]
  rfl

theorem isUnit_of_isVideo {role : Role} (h : role.isVideo = false) : isUnit role = false := by
  cases role <;> simp_all [Role.isVideo, isUnit]

theorem dropWhile_tuned {roles : List Role} (h : WholeTablesFirst roles) :
    ((tuned roles).dropWhile fun role => !isUnit role) = roles.dropWhile fun role => !isUnit role := by
  obtain ⟨before, between, rest, rfl, hbefore, hbetween⟩ := h
  have hbefore : ∀ role ∈ before, isUnit role = false := fun role hrole => isUnit_of_isVideo (hbefore role hrole)
  have hbetween : ∀ role ∈ between, isUnit role = false := fun role hrole => isUnit_of_isVideo (hbetween role hrole)
  obtain ⟨left, hleft, hpat⟩ := @dropWhile_behind (.pat true) _ (between ++ .pmt true :: rest) rfl hbefore
  have hjoined : ∀ role ∈ left ++ between, isUnit role = false := by
    intro role hrole
    rcases List.mem_append.mp hrole with hrole | hrole
    · exact hleft role hrole
    · exact hbetween role hrole
  obtain ⟨last, hlast, hpmt⟩ := @dropWhile_behind (.pmt true) _ rest rfl hjoined
  have htuned : tuned (before ++ .pat true :: between ++ .pmt true :: rest) = last ++ rest := by
    rw [tuned, afterPat, List.append_assoc, List.cons_append, hpat, afterPmt, ← List.append_assoc, hpmt]
  have hone {mark : Role} (hmark : isUnit mark = false) (rest : List Role) :
      ((mark :: rest).dropWhile fun role => !isUnit role) = rest.dropWhile fun role => !isUnit role := by
    simp [hmark]
  rw [htuned, dropWhile_quiet hlast, List.append_assoc, dropWhile_quiet hbefore, List.cons_append, hone rfl,
    dropWhile_quiet hbetween, hone rfl]

/-- Of a part of the roles, either nothing is video, or the two tables are in it. -/
theorem WholeTablesFirst.take {roles : List Role} (h : WholeTablesFirst roles) (count : Nat) :
    (∀ role ∈ roles.take count, role.isVideo = false) ∨ WholeTablesFirst (roles.take count) := by
  obtain ⟨before, between, rest, rfl, hbefore, hbetween⟩ := h
  have hfront : ∀ role ∈ before ++ .pat true :: between ++ [.pmt true], role.isVideo = false := by
    intro role hrole
    simp only [List.append_assoc, List.cons_append, List.mem_append, List.mem_cons, List.not_mem_nil, or_false] at hrole
    rcases hrole with hrole | rfl | hrole | rfl
    · exact hbefore role hrole
    · rfl
    · exact hbetween role hrole
    · rfl
  have hsplit : before ++ .pat true :: between ++ .pmt true :: rest = (before ++ .pat true :: between ++ [.pmt true]) ++ rest := by
    simp
  rw [hsplit]
  rcases Nat.lt_or_ge count (before ++ Role.pat true :: between ++ [Role.pmt true]).length with hlt | hge
  · left
    intro role hrole
    rw [List.take_append_of_le_length hlt.le] at hrole
    exact hfront role (List.mem_of_mem_take hrole)
  · right
    obtain ⟨more, rfl⟩ := Nat.exists_eq_add_of_le hge
    rw [List.take_length_add_append]
    exact ⟨before, between, rest.take more, by simp, hbefore, hbetween⟩

theorem videoBytes_quiet {roles : List Role} (h : ∀ role ∈ roles, role.isVideo = false) : videoBytes roles = [] := by
  rw [videoBytes, List.flatMap_eq_nil_iff]
  intro role hrole
  have hquiet := h role hrole
  cases role <;> simp_all [Role.isVideo, Role.data]

theorem mem_of_mem_tuned {roles : List Role} {role : Role} (h : role ∈ tuned roles) : role ∈ roles :=
  (List.dropWhile_sublist _).mem (List.mem_of_mem_tail ((List.dropWhile_sublist _).mem (List.mem_of_mem_tail h)))

/-- With the two tables in front, all the video is received. -/
theorem Sent.received_eq {program : Program} {packets : List Packet} {roles : List Role} (h : Sent program none packets roles)
    (htables : WholeTablesFirst roles) (count : Nat) : received (roles.take count) = videoBytes (roles.take count) := by
  rcases htables.take count with hquiet | htables
  · rw [videoBytes_quiet hquiet, received, videoBytes_quiet]
    intro role hrole
    exact hquiet role (mem_of_mem_tuned ((List.dropWhile_sublist _).mem hrole))
  · rw [received, dropWhile_tuned htables, (h.take count).videoBytes_dropWhile]

theorem getElem?_of_take {bytes : Bytes} {count i : Nat} {byte : UInt8} (h : (bytes.take count)[i]? = some byte) :
    bytes[i]? = some byte := by
  rw [List.getElem?_take] at h
  split at h
  · exact h
  · cases h

section
variable (m : Multiplex)

theorem Multiplex.length_flatten (packets : List Packet) : (packets.map Packet.encode).flatten.length = tsPacketLen * packets.length := by
  induction packets with
  | nil => rfl
  | cons packet packets ih =>
    rw [List.map_cons, List.flatten_cons, List.length_append, packet.length_encode, ih, List.length_cons, Nat.mul_succ, Nat.add_comm]

/-- Both packets that start inside the stream start with the sync byte. -/
theorem Multiplex.sync_at {count : Nat} (h : m.Synced count) : (m.bytes.take count)[m.leading.length]? = some 0x47 ∧
    (m.bytes.take count)[m.leading.length + tsPacketLen]? = some 0x47 := by
  have hlength := congrArg (m.leading.length + ·) (length_flatten m.packets)
  have hbytes : m.bytes.length = m.leading.length + tsPacketLen * m.packets.length := by
    rw [bytes, List.length_append, length_flatten]
  rw [Synced, hbytes] at h
  have hpackets : 2 ≤ m.packets.length := by
    by_contra hfew
    have hle : tsPacketLen * m.packets.length ≤ tsPacketLen * 1 := Nat.mul_le_mul_left _ (by omega)
    omega
  obtain ⟨first, others, hfirst⟩ := List.exists_cons_of_length_pos (by omega : 0 < m.packets.length)
  rw [hfirst, List.length_cons] at hpackets
  obtain ⟨second, rest, hsecond⟩ := List.exists_cons_of_length_pos (by omega : 0 < others.length)
  have hflatten : m.bytes = m.leading ++ (first.encode ++ (second.encode ++ (rest.map Packet.encode).flatten)) := by
    rw [bytes, hfirst, hsecond]
    rfl
  have hget (i : Nat) : m.bytes[m.leading.length + i]? =
      (first.encode ++ (second.encode ++ (rest.map Packet.encode).flatten))[i]? := by
    rw [hflatten, List.getElem?_append_right (by omega), Nat.add_sub_cancel_left]
  refine ⟨?_, ?_⟩
  · rw [List.getElem?_take_of_lt (by omega)]
    exact hget 0
  · rw [List.getElem?_take_of_lt (by omega), hget, List.getElem?_append_right (by rw [first.length_encode]),
      first.length_encode, Nat.sub_self]
    rfl

theorem Multiplex.findSync_take (count : Nat) :
    findSync (m.bytes.take count) = if m.Synced count then some m.leading.length else none := by
  have hshort := m.length_lt
  split
  · next hsynced =>
    obtain ⟨hfirst, hsecond⟩ := m.sync_at hsynced
    rw [findSync, List.find?_range_eq_some]
    refine ⟨by simp [hfirst, hsecond], ?_, fun offset hoffset => ?_⟩
    · rw [List.mem_range, List.length_take]
      rw [Synced] at hsynced
      omega
    · have hfalse := m.noFalseSync offset hoffset
      simp only [Bool.not_eq_true', Bool.and_eq_false_imp, beq_iff_eq, beq_eq_false_iff_ne]
      intro hhere hthere
      exact hfalse ⟨getElem?_of_take hhere, getElem?_of_take hthere⟩
  · next hsynced =>
    rw [findSync, List.find?_eq_none]
    intro offset hoffset hboth
    simp only [Bool.and_eq_true, beq_iff_eq] at hboth
    obtain ⟨hhere, hthere⟩ := hboth
    rcases Nat.lt_or_ge offset m.leading.length with hlt | hge
    · exact m.noFalseSync offset hlt ⟨getElem?_of_take hhere, getElem?_of_take hthere⟩
    · have hinside := (List.getElem?_eq_some_iff.mp hthere).1
      rw [List.length_take] at hinside
      rw [Synced] at hsynced
      omega

/-- What is found in a part of a stream, whatever part it is. -/
theorem Multiplex.elementaryStream_take (count : Nat) : tsH264ElementaryStream (m.bytes.take count) =
    if m.Synced count ∧ .cutUnit ∉ tuned (m.complete count) ∧ received (m.complete count) ≠ [] then
      .value (received (m.complete count)) else .nothing := by
  rw [tsH264ElementaryStream, m.findSync_take]
  by_cases hsynced : m.Synced count
  · have hstart : m.leading.length ≤ (m.bytes.take count).length := by
      rw [List.length_take]
      rw [Synced] at hsynced
      omega
    have hrest : (m.bytes.take count).drop m.leading.length =
        ((m.packets.map Packet.encode).flatten.take (count - m.leading.length)) := by
      rw [List.drop_take, bytes, List.drop_left]
    have hchunks : chunks tsPacketLen ((m.bytes.take count).drop m.leading.length) =
        (m.packets.take ((count - m.leading.length) / tsPacketLen)).map Packet.encode := by
      rw [hrest, chunks_take_flatten (by decide), List.map_take]
      intro part hpart
      obtain ⟨packet, -, rfl⟩ := List.mem_map.mp hpart
      exact packet.length_encode
    have hroles := hearAll_roles (m.complete count)
    have hrun := (m.sent.take ((count - m.leading.length) / tsPacketLen)).packets_eq
    rw [← hchunks] at hrun
    rw [if_pos hsynced, Outcome.ofOption_some, Outcome.bind_def, Outcome.value_bind, Outcome.guarded, if_pos hstart, Outcome.bind_def,
      Outcome.value_bind, hrun]
    change ((match Phase.untuned.hearAll (m.complete count) with
      | some last => Outcome.value (last.state m.program)
      | none => .nothing).bind _) = _
    cases hheard : Phase.untuned.hearAll (m.complete count) with
    | none =>
      rw [hheard, Option.map_none] at hroles
      have hcut : ¬(m.Synced count ∧ .cutUnit ∉ tuned (m.complete count) ∧ received (m.complete count) ≠ []) := by
        rintro ⟨-, hcut, -⟩
        rw [if_neg hcut] at hroles
        cases hroles
      rw [if_neg hcut]
      rfl
    | some last =>
      rw [hheard, Option.map_some] at hroles
      have huncut : .cutUnit ∉ tuned (m.complete count) := by
        intro hcut
        rw [if_pos hcut] at hroles
        cases hroles
      rw [if_neg huncut, Option.some.injEq] at hroles
      rw [Outcome.value_bind, Phase.stream_state, hroles]
      by_cases hempty : received (m.complete count) = []
      · have hcond : ¬(m.Synced count ∧ .cutUnit ∉ tuned (m.complete count) ∧ received (m.complete count) ≠ []) :=
          fun h => h.2.2 hempty
        rw [if_neg hcond, hempty]
        rfl
      · have hcond : ¬ (received (m.complete count)).isEmpty = true := by simpa using hempty
        rw [if_neg hcond, if_pos ⟨hsynced, huncut, hempty⟩]
  · have hcond : ¬(m.Synced count ∧ .cutUnit ∉ tuned (m.complete count) ∧ received (m.complete count) ≠ []) := fun h => hsynced h.1
    rw [if_neg hsynced, if_neg hcond]
    rfl

end

/-- What is returned for a part of a multiplexed stream: the video of the packets it holds complete, from the first
unit behind the tables on, or nothing; all of their video, where the tables come first and each is whole in a packet. No
buffer makes the demultiplexer read out of bounds, nor its loop over the streams of a program run on. -/
theorem tsH264ElementaryStream_prefix :
    (∀ (m : Multiplex) (count : Nat), tsH264ElementaryStream (m.bytes.take count) =
        (if m.Synced count ∧ .cutUnit ∉ tuned (m.complete count) ∧ received (m.complete count) ≠ [] then
          .value (received (m.complete count)) else .nothing) ∧
      (WholeTablesFirst m.roles → received (m.complete count) = videoBytes (m.complete count))) ∧
    (∀ bytes, (tsH264ElementaryStream bytes).Safe) ∧
    ∀ (entries : Bytes) (turns : Nat), entries.length ≤ turns → findH264 turns entries = findH264 entries.length entries := by
  refine ⟨fun m count => ⟨m.elementaryStream_take count, fun htables => ?_⟩, safe_tsH264ElementaryStream,
    fun entries turns hturns => findH264_turns hturns le_rfl⟩
  exact m.sent.received_eq htables _

section

private def splitTables : Program := ⟨256, 257, by decide, by decide, by decide⟩

private def patSection : Section where
  tableId := 0
  flags := 11
  body := [0, 1, 0xc1, 0, 0, 0, 1, 0xe1, 0]
  crc := [0, 0, 0, 0]
  length_crc := rfl
  length_lt := by decide

private def pmtSection : Section where
  tableId := 2
  flags := 11
  body := [0, 1, 0xc1, 0, 0, 0xe1, 1, 0xf0, 0, 0x1b, 0xe1, 1, 0xf0, 0]
  crc := [0, 0, 0, 0]
  length_crc := rfl
  length_lt := by decide

private theorem isPat_patSection : IsPat splitTables patSection :=
  ⟨rfl, [0, 1, 0xc1, 0, 0], 0, 1, [], 7, [], rfl, by decide, rfl⟩

private theorem isPmt_pmtSection : IsPmt splitTables pmtSection :=
  ⟨rfl, [0, 1, 0xc1, 0, 0, 0xe1, 1], 15, [], [], ⟨0x1b, 7, 257, 15, [], by decide⟩, [], rfl, by decide, by simp, rfl, rfl, rfl⟩

private def padded (bytes : Bytes) : Bytes := bytes ++ List.replicate (184 - bytes.length) 0xff

private theorem length_padded {bytes : Bytes} (h : bytes.length ≤ 184) : (padded bytes).length = 184 := by
  rw [padded, List.length_append, List.length_replicate]
  omega

private theorem psiPayload_padded (table : Section) : PsiPayload table (padded (0 :: table.bytes)) true := by
  refine ⟨0, [], table.bytes ++ List.replicate (184 - (0 :: table.bytes).length) 0xff, rfl, rfl, ?_, ?_⟩
  · rw [List.take_left, List.take_of_length_le (by simp)]
  · rw [List.length_append, Section.bytes, List.length_append]
    simp [Nat.add_assoc]

private theorem psiPayload_take (table : Section) : PsiPayload table (0 :: table.bytes.take 4) (decide (table.kept.length ≤ 4)) := by
  have hlength := table.length_bytes
  have hfour : (table.bytes.take 4).length = 4 := by
    rw [List.length_take]
    omega
  refine ⟨0, [], table.bytes.take 4, rfl, rfl, ?_, ?_⟩
  · rw [hfour, List.take_of_length_le (by omega)]
  · rw [hfour, decide_eq_true_iff]

private theorem neZero_scrambling : NeZero 4 := ⟨by decide⟩

attribute [local instance] neZero_scrambling

private def packetOf (pid : Pid) (unitStart : Bool) (payload : Bytes) (h : payload.length = 184) : Packet :=
  ⟨0, unitStart, 0, pid, 0, 0, none, some payload, by simpa [adaptationBytes] using h⟩

private def pesHeader : PesHeader := ⟨0xe0, 0, 0, 0x80, 0, [], by decide⟩

private def splitPackets : List Packet :=
  [packetOf 0 true (padded (0 :: patSection.bytes)) (length_padded (by decide)),
    ⟨0, true, 0, 256, 0, 0, some (List.replicate 178 0xff), some (0 :: pmtSection.bytes.take 4), by rw [adaptationBytes, List.length_cons, List.length_replicate]; rfl⟩,
    packetOf 256 false (padded (pmtSection.bytes.drop 4)) (length_padded (by decide)),
    packetOf 257 true (pesHeader.bytes ++ List.replicate 175 1) (by rw [List.length_append, List.length_replicate]; rfl),
    packetOf 256 true (padded (0 :: pmtSection.bytes)) (length_padded (by decide)),
    packetOf 257 true (pesHeader.bytes ++ List.replicate 175 2) (by rw [List.length_append, List.length_replicate]; rfl)]

private def splitRoles : List Role :=
  [.pat true, .pmt (decide (pmtSection.kept.length ≤ 4)), .silent, .unit (List.replicate 175 1), .pmt true,
    .unit (List.replicate 175 2)]

private theorem sent_splitPackets : Sent splitTables none splitPackets splitRoles := by
  refine .cons (.pat rfl rfl rfl isPat_patSection (psiPayload_padded _)) ?_
  refine .cons (.pmt rfl rfl rfl isPmt_pmtSection (psiPayload_take _)) ?_
  refine .cons (.tableRest (.inr rfl) rfl) ?_
  refine .cons (@Carries.unit _ _ _ pesHeader _ rfl rfl rfl rfl) ?_
  refine .cons (.pmt rfl rfl rfl isPmt_pmtSection (psiPayload_padded _)) ?_
  exact .cons (@Carries.unit _ _ _ pesHeader _ rfl rfl rfl rfl) .nil

private def splitMultiplex : Multiplex where
  program := splitTables
  leading := []
  packets := splitPackets
  roles := splitRoles
  sent := sent_splitPackets
  length_lt := by decide
  noFalseSync := by simp

/-- A first table of streams that goes over two packets is missed, and the unit behind it with it. -/
theorem split_table_missed : ¬ ∀ (m : Multiplex) (count : Nat), TablesFirst m.roles →
    tsH264ElementaryStream (m.bytes.take count) = .nothing ∨
      tsH264ElementaryStream (m.bytes.take count) = .value (videoBytes (m.complete count)) := by
  intro h
  have htables : TablesFirst splitMultiplex.roles := ⟨[], true, [], _, _, rfl, by simp, by simp⟩
  have hcase := h splitMultiplex 1128 htables
  have hmissed : ¬(tsH264ElementaryStream (splitMultiplex.bytes.take 1128) = .nothing ∨
      tsH264ElementaryStream (splitMultiplex.bytes.take 1128) = .value (videoBytes (splitMultiplex.complete 1128))) := by
    decide +kernel
  exact hmissed hcase

end

end StreamArena.Resolver
